import QrRender.Command

/-!
# Commits, seen from the commands

A surface takes commands one by one, and each kind of surface keeps something else between two
commits. What a commit may depend on can be read off the commands alone, and this file does so:

* `Pen`: the path steps since the last commit, the style set since then, and the paint; `Pen.after`
  is the pen after some commands, and `Pen.commits` are the commits they make;
* `cut`: a list of commands cut at its commits, each stretch with the paint in effect before it;
* `Machine`: a surface as a machine, and `Machine.Follows`, a surface whose state is at every moment
  what the pen says;
* **`Machine.Follows.resets`**: on a surface that follows the pen, nothing but the paint and what has
  been drawn survives a commit.
-/

namespace QrRender

namespace Command

variable {α : Type}

/-- The command fills or strokes. -/
def isCommit : Command α → Bool
  | .commit _ => true
  | _ => false

/-- The paint that a command sets. -/
def paint? : Command α → Option Paint
  | .paint p => some p
  | _ => none

/-- The path step of a command. -/
def step? : Command α → Option (PathStep α)
  | .path s => some s
  | _ => none

theorem eq_commit {c : Command α} (h : c.isCommit = true) : ∃ ink, c = .commit ink := by
  cases c with
  | commit ink => exact ⟨ink, rfl⟩
  | _ => cases h

/-- The last paint that some commands set, or the given one if they set none. -/
def lastPaint (p : Paint) (cs : List (Command α)) : Paint :=
  (cs.filterMap paint?).getLast?.getD p

theorem lastPaint_cons (p : Paint) (c : Command α) (cs : List (Command α)) :
    lastPaint p (c :: cs) = lastPaint (c.paint?.getD p) cs := by
  unfold lastPaint
  cases hc : c.paint? with
  | none => rw [List.filterMap_cons_none hc]; rfl
  | some q =>
    rw [List.filterMap_cons_some hc, List.getLast?_cons]
    rfl

end Command

/-! ## 1. The pen -/

/-- The path steps since the last commit, with the style, the paint and the ink of the commit that
    ends them. -/
structure Commit (α : Type) where
  steps : List (PathStep α)
  style : Style α
  paint : Paint
  ink : Ink

/-- What the commands so far leave for the next commit. -/
structure Pen (α : Type) where
  steps : List (PathStep α)
  style : Style α
  paint : Paint

namespace Pen

variable {α : Type} [NatCast α] [LT α] [DecidableLT α] [LE α] [DecidableLE α]

/-- A pen at rest with a paint. -/
def resting (paint : Paint) : Pen α := ⟨[], Style.default, paint⟩

/-- A pen at the start of a drawing. -/
def initial : Pen α := resting (.solid Rgba.black)

/-- The commit that the pen is ready for. -/
def commit (p : Pen α) (ink : Ink) : Commit α := ⟨p.steps, p.style, p.paint, ink⟩

/-- The pen after one command. -/
def step (p : Pen α) : Command α → Pen α
  | .path s => { p with steps := p.steps ++ [s] }
  | .paint paint => { p with paint := paint }
  | .lineWidth w => { p with style := { p.style with lineWidth := w } }
  | .dash pattern => { p with style := p.style.withDash pattern }
  | .cap c => { p with style := { p.style with cap := c } }
  | .fillRule r => { p with style := { p.style with rule := r } }
  | .commit _ => resting p.paint

/-- The pen after a list of commands. -/
def after (p : Pen α) (cs : List (Command α)) : Pen α := cs.foldl step p

/-- The commits of a list of commands, in order. -/
def commits : Pen α → List (Command α) → List (Commit α)
  | _, [] => []
  | p, .commit ink :: cs => p.commit ink :: commits (resting p.paint) cs
  | p, c :: cs => commits (p.step c) cs

theorem commits_cons_commit (p : Pen α) (ink : Ink) (cs : List (Command α)) :
    p.commits (.commit ink :: cs) = p.commit ink :: (p.step (.commit ink)).commits cs := rfl

theorem commits_cons (p : Pen α) {c : Command α} (hc : c.isCommit = false)
    (cs : List (Command α)) : p.commits (c :: cs) = (p.step c).commits cs := by
  cases c with
  | commit ink => cases hc
  | _ => rfl

theorem commits_eq_nil {cs : List (Command α)} (h : ∀ c ∈ cs, c.isCommit = false) (p : Pen α) :
    p.commits cs = [] := by
  induction cs generalizing p with
  | nil => rfl
  | cons c cs ih =>
    rw [commits_cons p (h c List.mem_cons_self)]
    exact ih (fun d hd => h d (List.mem_cons_of_mem c hd)) _

theorem commits_append (p : Pen α) (cs ds : List (Command α)) :
    p.commits (cs ++ ds) = p.commits cs ++ (p.after cs).commits ds := by
  induction cs generalizing p with
  | nil => rfl
  | cons c cs ih =>
    cases hc : c.isCommit with
    | true =>
      obtain ⟨ink, rfl⟩ := Command.eq_commit hc
      rw [List.cons_append, commits_cons_commit, commits_cons_commit, ih]
      rfl
    | false =>
      rw [List.cons_append, commits_cons p hc, commits_cons p hc, ih]
      rfl

theorem paint_step (p : Pen α) (c : Command α) : (p.step c).paint = c.paint?.getD p.paint := by
  cases c <;> rfl

/-- The paint of the pen is the last one that was set. -/
theorem paint_after (p : Pen α) (cs : List (Command α)) :
    (p.after cs).paint = Command.lastPaint p.paint cs := by
  induction cs generalizing p with
  | nil => rfl
  | cons c cs ih =>
    rw [Command.lastPaint_cons, ← paint_step]
    exact ih (p.step c)

/-- A commit leaves nothing but the paint. -/
theorem after_commit (p : Pen α) (cs : List (Command α)) (ink : Ink) :
    p.after (cs ++ [.commit ink]) = resting (Command.lastPaint p.paint cs) := by
  rw [after, List.foldl_append, ← paint_after]
  rfl

/-- The paint at first has no part in what becomes of the path and of the style. -/
theorem after_withPaint (p : Pen α) (paint : Paint) (cs : List (Command α)) :
    ({ p with paint := paint } : Pen α).after cs =
      { p.after cs with paint := Command.lastPaint paint cs } := by
  induction cs generalizing p paint with
  | nil => rfl
  | cons c cs ih =>
    have hstep : ({ p with paint := paint } : Pen α).step c =
        { p.step c with paint := c.paint?.getD paint } := by
      cases c <;> rfl
    show (({ p with paint := paint } : Pen α).step c).after cs = _
    rw [hstep, ih, Command.lastPaint_cons]
    rfl

/-- Without a commit the steps of the path are those of the commands. -/
theorem steps_after {cs : List (Command α)} (h : ∀ c ∈ cs, c.isCommit = false) (p : Pen α) :
    (p.after cs).steps = p.steps ++ cs.filterMap Command.step? := by
  induction cs generalizing p with
  | nil => exact (List.append_nil _).symm
  | cons c cs ih =>
    have hstep : (p.step c).steps = p.steps ++ c.step?.toList := by
      have hc := h c List.mem_cons_self
      cases c with
      | path s => rfl
      | commit ink => cases hc
      | _ => exact (List.append_nil _).symm
    show ((p.step c).after cs).steps = _
    rw [ih (fun d hd => h d (List.mem_cons_of_mem c hd)), hstep, List.append_assoc,
      List.filterMap_cons]
    cases c.step? <;> rfl

end Pen

/-! ## 2. Stretches -/

/-- The commands of one commit: those since the commit before, the paint in effect before them, and
    the ink of the commit that ends them. -/
structure Stretch (α : Type) where
  paint : Paint
  commands : List (Command α)
  ink : Ink

namespace Stretch

variable {α : Type}

/-- The commands of a stretch with the commit that ends them. -/
def all (t : Stretch α) : List (Command α) := t.commands ++ [.commit t.ink]

/-- The stretches of a list of commands, before which a paint is in effect. What follows the last
    commit belongs to none. -/
def cut : Paint → List (Command α) → List (Stretch α)
  | _, [] => []
  | paint, .commit ink :: cs => ⟨paint, [], ink⟩ :: cut paint cs
  | paint, c :: cs =>
    match cut (c.paint?.getD paint) cs with
    | [] => []
    | t :: ts => { t with paint := paint, commands := c :: t.commands } :: ts

theorem cut_cons (paint : Paint) {c : Command α} (hc : c.isCommit = false)
    (cs : List (Command α)) :
    cut paint (c :: cs) =
      match cut (c.paint?.getD paint) cs with
      | [] => []
      | t :: ts => { t with paint := paint, commands := c :: t.commands } :: ts := by
  cases c with
  | commit ink => cases hc
  | _ => rfl

theorem cut_eq_nil {cs : List (Command α)} (h : ∀ c ∈ cs, c.isCommit = false) (paint : Paint) :
    cut paint cs = [] := by
  induction cs generalizing paint with
  | nil => rfl
  | cons c cs ih =>
    rw [cut_cons paint (h c List.mem_cons_self),
      ih (fun d hd => h d (List.mem_cons_of_mem c hd))]

/-- The first stretch goes up to the first commit. -/
theorem cut_append {cs : List (Command α)} (h : ∀ c ∈ cs, c.isCommit = false) (paint : Paint)
    (ink : Ink) (ds : List (Command α)) :
    cut paint (cs ++ .commit ink :: ds) =
      ⟨paint, cs, ink⟩ :: cut (Command.lastPaint paint cs) ds := by
  induction cs generalizing paint with
  | nil => rfl
  | cons c cs ih =>
    rw [List.cons_append, cut_cons paint (h c List.mem_cons_self),
      ih (fun d hd => h d (List.mem_cons_of_mem c hd)), Command.lastPaint_cons]

/-- Every list of commands has no commit, or a first one. -/
theorem commit_induction {motive : List (Command α) → Prop}
    (pending : ∀ cs, (∀ c ∈ cs, c.isCommit = false) → motive cs)
    (first : ∀ cs ink ds, (∀ c ∈ cs, c.isCommit = false) → motive ds →
      motive (cs ++ .commit ink :: ds)) (cs : List (Command α)) : motive cs := by
  -- the commands before `cs` that belong to the same stretch
  suffices h : ∀ seg : List (Command α), (∀ c ∈ seg, c.isCommit = false) → motive (seg ++ cs) from
    h [] fun c hc => absurd hc List.not_mem_nil
  induction cs with
  | nil => intro seg hseg; rw [List.append_nil]; exact pending seg hseg
  | cons c cs ih =>
    intro seg hseg
    cases hc : c.isCommit with
    | true =>
      obtain ⟨ink, rfl⟩ := Command.eq_commit hc
      exact first seg ink cs hseg (ih [] fun c hc => absurd hc List.not_mem_nil)
    | false =>
      rw [List.append_cons]
      refine ih (seg ++ [c]) fun d hd => ?_
      rcases List.mem_append.mp hd with hd | hd
      · exact hseg d hd
      · rwa [List.mem_singleton.mp hd]

end Stretch

/-! ## 3. Machines -/

/-- A surface that is drawn on command by command. What a command may do besides is `m`: nothing,
    or fail. -/
structure Machine (m : Type → Type) (α σ ο : Type) where
  /-- A surface on which nothing is begun: its paint, and what has been drawn on it. -/
  rest : Paint → ο → σ
  step : σ → Command α → m σ
  /-- What has been drawn. -/
  drawn : σ → ο

namespace Machine

variable {m : Type → Type} [Monad m] [LawfulMonad m] {α σ ο : Type}

/-- A surface after a list of commands. -/
def run (M : Machine m α σ ο) (s : σ) (cs : List (Command α)) : m σ := cs.foldlM M.step s

/-- What has been drawn after some commands on a surface at rest. -/
def draw (M : Machine m α σ ο) (paint : Paint) (o : ο) (cs : List (Command α)) : m ο :=
  M.drawn <$> M.run (M.rest paint o) cs

/-- **Nothing survives a commit but the paint and what has been drawn.** -/
structure ResetsOnCommit (M : Machine m α σ ο) : Prop where
  /-- After a commit the surface is at rest with the last paint. -/
  rests : ∀ paint o cs ink, M.run (M.rest paint o) (cs ++ [.commit ink]) =
    M.rest (Command.lastPaint paint cs) <$> M.draw paint o (cs ++ [.commit ink])
  /-- What follows a commit is drawn as on a surface at rest. -/
  resumes : ∀ paint o cs ink ds, M.draw paint o (cs ++ .commit ink :: ds) =
    M.draw paint o (cs ++ [.commit ink]) >>= fun o => M.draw (Command.lastPaint paint cs) o ds
  /-- What follows the last commit draws nothing. -/
  pending : ∀ paint o cs ds, (∀ c ∈ ds, c.isCommit = false) →
    M.draw paint o (cs ++ ds) = M.draw paint o cs
  /-- Each stretch is drawn on its own, given the paint before it and what has been drawn. -/
  stretches : ∀ paint o cs, M.draw paint o cs =
    (Stretch.cut paint cs).foldlM (fun o t => M.draw t.paint o t.all) o

section Follows

variable [NatCast α] [LT α] [DecidableLT α] [LE α] [DecidableLE α]

/-- **The surface follows the pen**: its state is what the pen says and what has been drawn, and a
    commit adds what `emit` makes of it. -/
structure Follows (M : Machine m α σ ο) (state : Pen α → ο → σ) (emit : ο → Commit α → m ο) :
    Prop where
  rest : ∀ paint o, M.rest paint o = state (Pen.resting paint) o
  drawn : ∀ p o, M.drawn (state p o) = o
  note : ∀ p o c, c.isCommit = false → M.step (state p o) c = pure (state (p.step c) o)
  commit : ∀ p o ink, M.step (state p o) (.commit ink) =
    state (Pen.resting p.paint) <$> emit o (p.commit ink)

variable {M : Machine m α σ ο} {state : Pen α → ο → σ} {emit : ο → Commit α → m ο}

/-- The state after a run: the pen after it, and what its commits have added. -/
theorem Follows.run_state (h : M.Follows state emit) (p : Pen α) (o : ο)
    (cs : List (Command α)) :
    M.run (state p o) cs = state (p.after cs) <$> (p.commits cs).foldlM emit o := by
  induction cs generalizing p o with
  | nil => exact (map_pure (state p) o).symm
  | cons c cs ih =>
    have hcons : M.run (state p o) (c :: cs) = M.step (state p o) c >>= fun s => M.run s cs :=
      List.foldlM_cons
    cases hc : c.isCommit with
    | true =>
      obtain ⟨ink, rfl⟩ := Command.eq_commit hc
      rw [hcons, h.commit, bind_map_left, Pen.commits_cons_commit, List.foldlM_cons, map_bind]
      exact bind_congr fun o' => ih (Pen.resting p.paint) o'
    | false =>
      rw [hcons, h.note p o c hc, pure_bind, ih, Pen.commits_cons p hc]
      rfl

theorem Follows.draw_eq (h : M.Follows state emit) (paint : Paint) (o : ο)
    (cs : List (Command α)) :
    M.draw paint o cs = ((Pen.resting paint).commits cs).foldlM emit o := by
  rw [draw, h.rest, h.run_state, Functor.map_map]
  simp only [h.drawn, id_map']

/-- A surface that follows the pen resets on commit. -/
theorem Follows.resets (h : M.Follows state emit) : M.ResetsOnCommit where
  rests paint o cs ink := by
    have hrest : M.rest (Command.lastPaint paint cs) =
        state (Pen.resting (Command.lastPaint paint cs)) := funext (h.rest _)
    rw [h.draw_eq, hrest, h.rest, h.run_state, Pen.after_commit]
    rfl
  resumes paint o cs ink ds := by
    rw [List.append_cons, h.draw_eq, h.draw_eq, Pen.commits_append, List.foldlM_append,
      Pen.after_commit]
    simp only [h.draw_eq]
    rfl
  pending paint o cs ds hds := by
    rw [h.draw_eq, h.draw_eq, Pen.commits_append, Pen.commits_eq_nil hds, List.append_nil]
  stretches paint o cs := by
    simp only [h.draw_eq]
    induction cs using Stretch.commit_induction generalizing paint o with
    | pending cs hcs => rw [Pen.commits_eq_nil hcs, Stretch.cut_eq_nil hcs]; rfl
    | first cs ink ds hcs ih =>
      rw [Stretch.cut_append hcs, List.foldlM_cons, List.append_cons, Pen.commits_append,
        List.foldlM_append, Pen.after_commit]
      exact bind_congr fun o' => ih _ o'

end Follows

/-! ## 4. Machines that put elements one after the other -/

/-- A machine whose commands do nothing besides is a fold over the commands. -/
theorem run_eq_foldl (M : Machine Id α σ ο) (s : σ) (cs : List (Command α)) :
    (M.run s cs).run = cs.foldl (fun s c => (M.step s c).run) s :=
  List.idRun_foldlM

/-- What has been drawn before has no part in what is drawn after it. -/
def AppendsOnly {β : Type} (M : Machine Id α σ (Array β)) : Prop :=
  ∀ paint elements cs,
    (M.draw paint elements cs).run = elements ++ (M.draw paint #[] cs).run

section Append

variable [NatCast α] [LT α] [DecidableLT α] [LE α] [DecidableLE α]
variable {β : Type} {M : Machine Id α σ (Array β)} {state : Pen α → Array β → σ}
  {elements : Commit α → List β}

/-- The elements of a drawing are those of its commits, one commit after the other. -/
theorem Follows.draw_append (h : M.Follows state fun o k => pure (o ++ (elements k).toArray))
    (paint : Paint) (o : Array β) (cs : List (Command α)) :
    (M.draw paint o cs).run =
      o ++ (((Pen.resting paint).commits cs).flatMap elements).toArray := by
  rw [h.draw_eq, List.foldlM_pure]
  generalize (Pen.resting paint).commits cs = ks
  show ks.foldl (fun o k => o ++ (elements k).toArray) o = o ++ (ks.flatMap elements).toArray
  induction ks generalizing o with
  | nil => simp
  | cons k ks ih =>
    rw [List.foldl_cons, ih, List.flatMap_cons]
    simp

theorem Follows.appendsOnly (h : M.Follows state fun o k => pure (o ++ (elements k).toArray)) :
    M.AppendsOnly := by
  intro paint o cs
  rw [h.draw_append, h.draw_append]
  simp

end Append

end Machine

end QrRender
