import QrRender.Options.Builder
import QrRender.Output.Write
import QrRender.Proofs.Document.Parts
import QrRender.Proofs.Numeric.Exact

/-!
# What a sink receives

The output is complete before a sink hears of it, and is then offered until all of it is taken. So a
sink is left with nothing, with a first part of the output, or with all of it; and it is flushed in
the last case only, after the last byte.

What a sink has received is a matter of the sink, and is read off a log that it keeps of what
happens at it, whatever its own state and its answers are. What the output is, and when there is
none, is said format by format: an image is what the encoder in use makes of it, and a document is
its text. An encoder may fail, and a logo may not be inlined.

* `Sink.logged`: a sink with a log;
* `Sink.writeAll_logged`, `Sink.deliver_logged`: the log changes nothing in what becomes of the
  bytes, and says what did;
* `Options.Encodes`, `Options.Outputs`: the output of a grid, or why there is none;
* `Options.outputs_iff`: there is exactly one such output, or one such reason;
* `Options.Receives`, `Options.write_logged`: how writing an output ends, by the log;
* **`Options.write_receives`**: both, for any options, grid and sink.
-/

namespace QrRender

/-! ## 1. Sinks with a log -/

namespace Sink

/-- What may happen at a sink. -/
inductive Event where
  /-- It took these bytes of those it was offered. -/
  | took (bytes : List UInt8)
  /-- It failed when it was offered some. -/
  | refused (cause : String)
  | flushed
  /-- It failed when it was asked to flush. -/
  | unflushed (cause : String)
  deriving DecidableEq

/-- Why an event ends a delivery before its time, if it does. -/
def Event.cause? : Event → Option String
  | took [] => some stalled
  | took (_ :: _) => none
  | refused cause => some cause
  | flushed => none
  | unflushed cause => some cause

variable {σ : Type}

/-- The sink with a log beside its state. -/
def logged (sink : Sink σ) : Sink (σ × List Event) where
  write s bytes :=
    match sink.write s.1 bytes with
    | (.ok n, t) => (.ok n, t, s.2 ++ [.took (bytes.take n)])
    | (.error cause, t) => (.error cause, t, s.2 ++ [.refused cause])
  flush s :=
    match sink.flush s.1 with
    | (.ok done, t) => (.ok done, t, s.2 ++ [.flushed])
    | (.error cause, t) => (.error cause, t, s.2 ++ [.unflushed cause])

end Sink

/-- The delivery to a sink with a log. -/
def Delivery.withLog {σ : Type} (d : Delivery σ) (log : List Sink.Event) :
    Delivery (σ × List Sink.Event) :=
  ⟨(d.state, log), d.received, d.flushed, d.failure⟩

@[simp]
theorem Delivery.failure_withLog {σ : Type} (d : Delivery σ) (log : List Sink.Event) :
    (d.withLog log).failure = d.failure :=
  rfl

namespace Sink

variable {σ : Type}

/-- **Bytes offered to a sink with a log**: what becomes of them is the same, and the log goes on
    with the parts that were taken, and with the event that ended it if something failed. -/
theorem writeAll_logged (sink : Sink σ) (state : σ) (bytes : List UInt8) (log : List Event) :
    ∃ (parts : List (List UInt8)) (ending : List Event),
      sink.logged.writeAll (state, log) bytes =
        (sink.writeAll state bytes).withLog (log ++ (parts.map .took ++ ending)) ∧
      parts.flatten = (sink.writeAll state bytes).received ∧
      ending.map Event.cause? = (sink.writeAll state bytes).failure.toList.map some := by
  fun_induction writeAll sink state bytes generalizing log with
  | case1 state => exact ⟨[], [], by simp [writeAll, Delivery.withLog], rfl, rfl⟩
  | case2 state b bytes cause next hwrite =>
    have hlogged : sink.logged.write (state, log) (b :: bytes) =
        (.error cause, next, log ++ [.refused cause]) := by
      simp only [logged, hwrite]
    exact ⟨[], [.refused cause], by simp [writeAll, hlogged, Delivery.withLog], rfl, rfl⟩
  | case3 state b bytes next hwrite =>
    have hlogged : sink.logged.write (state, log) (b :: bytes) =
        (.ok 0, next, log ++ [.took []]) := by
      simp only [logged, hwrite, List.take_zero]
    exact ⟨[], [.took []], by simp [writeAll, hlogged, Delivery.withLog], rfl, rfl⟩
  | case4 state b bytes n next hwrite rest ih =>
    have hlogged : sink.logged.write (state, log) (b :: bytes) =
        (.ok (n + 1), next, log ++ [.took (b :: bytes.take n)]) := by
      simp only [logged, hwrite, List.take_succ_cons]
    obtain ⟨parts, ending, hrest, hreceived, hending⟩ := ih (log ++ [.took (b :: bytes.take n)])
    refine ⟨(b :: bytes.take n) :: parts, ending, ?_, ?_, hending⟩
    · rw [writeAll, hlogged]
      simp only [hrest, List.append_assoc]
      rfl
    · exact congrArg (b :: bytes.take n ++ ·) hreceived

/-- **A delivery to a sink with a log**: what becomes of the bytes is the same, and the log has the
    parts that were taken, and then the event that ended it, which is the flush if nothing
    failed. -/
theorem deliver_logged (sink : Sink σ) (state : σ) (bytes : List UInt8) :
    ∃ (parts : List (List UInt8)) (ending : Event),
      sink.logged.deliver (state, []) bytes =
        (sink.deliver state bytes).withLog (parts.map .took ++ [ending]) ∧
      parts.flatten = (sink.deliver state bytes).received ∧ parts.flatten <+: bytes ∧
      match (sink.deliver state bytes).failure with
      | none => ending = .flushed ∧ parts.flatten = bytes
      | some cause => ending.cause? = some cause := by
  obtain ⟨parts, ending, hlogged, hreceived, hending⟩ := sink.writeAll_logged state bytes []
  rw [List.nil_append] at hlogged
  obtain ⟨hfirst, hall⟩ := sink.received_writeAll state bytes
  rw [← hreceived] at hfirst hall
  simp only [deliver, hlogged]
  cases hfailure : (sink.writeAll state bytes).failure with
  | some cause =>
    obtain ⟨event, rfl, hcause⟩ : ∃ event, ending = [event] ∧ event.cause? = some cause := by
      rw [hfailure] at hending
      exact List.map_eq_singleton_iff.mp hending
    exact ⟨parts, event, by simp [Delivery.withLog, hfailure], hreceived, hfirst,
      by simpa [hfailure] using hcause⟩
  | none =>
    obtain rfl : ending = [] := by
      rw [hfailure] at hending
      exact List.map_eq_nil_iff.mp hending
    rw [List.append_nil]
    cases hflush : sink.flush (sink.writeAll state bytes).state with
    | mk answer next =>
    cases answer with
    | ok done =>
      exact ⟨parts, .flushed, by simp [Delivery.withLog, hfailure, logged, hflush], hreceived,
        hfirst, rfl, hall hfailure⟩
    | error cause =>
      exact ⟨parts, .unflushed cause, by simp [Delivery.withLog, hfailure, logged, hflush],
        hreceived, hfirst, rfl⟩

end Sink

/-! ## 2. Outputs -/

namespace Options

section

variable {α : Type} {codecs : Codecs} {o : Options α}

/-- What an image is encoded to: the bytes that were produced, and the error if there was one. A
    custom encoder is used for every format, and without one the encoder of the format. -/
inductive Encodes (codecs : Codecs) (o : Options α) (img : Image) :
    List UInt8 → Option Error → Prop
  | custom {encoder : Encoder} (h : o.encoder = some encoder) :
    Encodes codecs o img (encoder img).bytes (encoder img).failure
  | png (h : o.encoder = none) (hformat : o.format = .png) :
    Encodes codecs o img (codecs.png img) ((codecs.pngFailure img).map .encode)
  | jpeg (h : o.encoder = none) (hformat : o.format = .jpeg) :
    Encodes codecs o img (codecs.jpeg img) ((codecs.jpegFailure img).map .encode)

theorem encodes_iff {img : Image} {bytes : List UInt8} {failure : Option Error} :
    o.Encodes codecs img bytes failure ↔
      ∃ encoder, o.imageEncoder codecs = some encoder ∧ encoder img = ⟨bytes, failure⟩ := by
  unfold imageEncoder
  constructor
  · intro h
    cases h with
    | custom h =>
      rw [h]
      exact ⟨_, rfl, rfl⟩
    | png h hformat =>
      rw [h, hformat]
      exact ⟨_, rfl, rfl⟩
    | jpeg h hformat =>
      rw [h, hformat]
      exact ⟨_, rfl, rfl⟩
  · rintro ⟨encoder, hencoder, hencoding⟩
    have hbytes : bytes = (encoder img).bytes := by rw [hencoding]
    have hfailure : failure = (encoder img).failure := by rw [hencoding]
    subst hbytes hfailure
    cases hcustom : o.encoder with
    | some encoder' =>
      rw [hcustom, Option.some_or] at hencoder
      obtain rfl := Option.some.inj hencoder
      exact .custom hcustom
    | none =>
      rw [hcustom, Option.none_or] at hencoder
      cases hformat : o.format <;> rw [hformat] at hencoder
      case png =>
        obtain rfl := Option.some.inj hencoder
        exact .png hcustom hformat
      case jpeg =>
        obtain rfl := Option.some.inj hencoder
        exact .jpeg hcustom hformat
      all_goals cases hencoder

/-- No encoder is used for the vector formats, unless there is a custom one. -/
theorem imageEncoder_eq_none :
    o.imageEncoder codecs = none ↔ o.encoder = none ∧ o.format.isVector = true := by
  unfold imageEncoder
  rw [Option.or_eq_none_iff]
  refine and_congr_right fun _ => ?_
  cases o.format <;> simp [formatEncoder, OutputFormat.isVector]

theorem exists_imageEncoder_iff :
    (∃ encoder, o.imageEncoder codecs = some encoder) ↔
      o.encoder ≠ none ∨ o.format.isVector = false := by
  rw [← Option.ne_none_iff_exists', ne_eq, imageEncoder_eq_none, not_and_or, Bool.not_eq_true]

end

variable {α : Type} [Add α] [Sub α] [Mul α] [Div α] [NatCast α] [LT α] [DecidableLT α]
  [LE α] [DecidableLE α] [Numeric α]

/-- The complete output of a grid, or why there is none. -/
inductive Outputs (codecs : Codecs) (o : Options α) (g : Grid) :
    Except Failure (List UInt8) → Prop
  /-- The image, encoded. -/
  | image {img : Image} {bytes : List UInt8} (himg : o.image g = .ok img)
    (h : o.Encodes codecs img bytes none) : Outputs codecs o g (.ok bytes)
  /-- The encoder failed, whatever it had produced before. -/
  | imageFailure {img : Image} {bytes : List UInt8} {e : Error} (himg : o.image g = .ok img)
    (h : o.Encodes codecs img bytes (some e)) : Outputs codecs o g (.error (.error e))
  | imageFault {f : Fault} (h : o.encoder ≠ none ∨ o.format.isVector = false)
    (himg : o.image g = .error f) : Outputs codecs o g (.error (.fault f))
  /-- The document, as a text. -/
  | document {doc : Svg.Element} (h : o.encoder = none) (hformat : o.format.isVector = true)
    (hdoc : o.document codecs g = .ok doc) : Outputs codecs o g (.ok (textBytes doc.text))
  /-- The logo cannot be inlined in the document. -/
  | logoFailure {r : Renderer α} {drawing : List Svg.Element} {logo : Image} {x y : Nat}
    {cause : String} (h : o.encoder = none) (hformat : o.format.isVector = true)
    (hr : Renderer.ofOptions o g = .ok r) (hdrawing : r.drawingElements = .ok drawing)
    (hlogo : r.logo = some logo) (horigin : r.logoOrigin = .ok (some (x, y)))
    (hfailure : codecs.pngFailure logo = some cause) :
    Outputs codecs o g (.error (.error (.encode cause)))
  | documentFailure {f : Failure} (h : o.encoder = none) (hformat : o.format.isVector = true)
    (hdoc : o.document codecs g = .error f) : Outputs codecs o g (.error f)

variable {codecs : Codecs} {o : Options α} {g : Grid}

theorem output_of_imageEncoder {encoder : Encoder} (h : o.imageEncoder codecs = some encoder)
    (g : Grid) : o.output codecs g = (do encoded encoder (← Failure.ofFault (o.image g))) := by
  unfold output
  rw [h]

theorem output_of_document (h : o.imageEncoder codecs = none) (g : Grid) :
    o.output codecs g = (do return textBytes (← o.document codecs g).text) := by
  unfold output
  rw [h]

/-- What is said to be the output is the output. -/
theorem Outputs.output_eq {out : Except Failure (List UInt8)} (h : o.Outputs codecs g out) :
    o.output codecs g = out := by
  cases h with
  | image himg h =>
    obtain ⟨encoder, hencoder, hencoding⟩ := encodes_iff.mp h
    rw [output_of_imageEncoder hencoder, himg]
    show encoded encoder _ = _
    rw [encoded, hencoding]
  | imageFailure himg h =>
    obtain ⟨encoder, hencoder, hencoding⟩ := encodes_iff.mp h
    rw [output_of_imageEncoder hencoder, himg]
    show encoded encoder _ = _
    rw [encoded, hencoding]
  | imageFault h himg =>
    obtain ⟨encoder, hencoder⟩ := exists_imageEncoder_iff.mpr h
    rw [output_of_imageEncoder hencoder, himg]
    rfl
  | document h hformat hdoc =>
    rw [output_of_document (imageEncoder_eq_none.mpr ⟨h, hformat⟩), hdoc]
    rfl
  | logoFailure h hformat hr hdrawing hlogo horigin hfailure =>
    have hrefused := Renderer.logoElements_of_failure hlogo horigin hfailure
    rw [output_of_document (imageEncoder_eq_none.mpr ⟨h, hformat⟩), document_of_renderer hr,
      Renderer.document_of_logo_failure hdrawing hrefused]
    rfl
  | documentFailure h hformat hdoc =>
    rw [output_of_document (imageEncoder_eq_none.mpr ⟨h, hformat⟩), hdoc]
    rfl

/-- The image as an encoder of it encodes it. -/
theorem outputs_encoded {encoder : Encoder} (hencoder : o.imageEncoder codecs = some encoder)
    {img : Image} (himg : o.image g = .ok img) : o.Outputs codecs g (encoded encoder img) := by
  cases hencoding : encoder img with
  | mk bytes failure =>
    have hencodes := encodes_iff.mpr ⟨encoder, hencoder, hencoding⟩
    rw [encoded, hencoding]
    cases failure with
    | none => exact .image himg hencodes
    | some e => exact .imageFailure himg hencodes

/-- The output is what it is said to be. -/
theorem outputs_output (codecs : Codecs) (o : Options α) (g : Grid) :
    o.Outputs codecs g (o.output codecs g) := by
  cases hencoder : o.imageEncoder codecs with
  | none =>
    obtain ⟨hcustom, hformat⟩ := imageEncoder_eq_none.mp hencoder
    rw [output_of_document hencoder]
    cases hdoc : o.document codecs g with
    | ok doc => exact .document hcustom hformat hdoc
    | error f => exact .documentFailure hcustom hformat hdoc
  | some encoder =>
    rw [output_of_imageEncoder hencoder]
    cases himg : o.image g with
    | error f => exact .imageFault (exists_imageEncoder_iff.mp ⟨encoder, hencoder⟩) himg
    | ok img => exact outputs_encoded hencoder himg

/-- **There is one complete output, or one reason why there is none.** -/
theorem outputs_iff {out : Except Failure (List UInt8)} :
    o.Outputs codecs g out ↔ o.output codecs g = out :=
  ⟨Outputs.output_eq, fun h => h ▸ outputs_output codecs o g⟩

/-! ## 3. Writing -/

/-- How writing an output ends, by what the sink has received, its log and the result. -/
inductive Receives :
    Except Failure (List UInt8) → List UInt8 → List Sink.Event → Except Failure Unit → Prop
  /-- An output that cannot be produced leaves nothing at the sink, which is not flushed. -/
  | nothing (f : Failure) : Receives (.error f) [] [] (.error f)
  /-- Success: the whole output, part by part, and then the flush. -/
  | whole (parts : List (List UInt8)) :
    Receives (.ok parts.flatten) parts.flatten (parts.map .took ++ [.flushed]) (.ok ())
  /-- The sink fails: a first part of the output, and then the event that ended it. -/
  | part (parts : List (List UInt8)) (rest : List UInt8) {ending : Sink.Event} {cause : String}
    (h : ending.cause? = some cause) :
    Receives (.ok (parts.flatten ++ rest)) parts.flatten (parts.map .took ++ [ending])
      (.error (.error (.io (.refused cause))))

/-- A sink with a log receives what the sink receives, and the log says how it ended. -/
theorem write_logged {σ : Type} (codecs : Codecs) (o : Options α) (g : Grid) (sink : Sink σ)
    (state : σ) :
    ∃ log, o.write codecs g sink.logged (state, []) =
        ((o.write codecs g sink state).1.withLog log, (o.write codecs g sink state).2) ∧
      Receives (o.output codecs g) (o.write codecs g sink state).1.received log
        (o.write codecs g sink state).2 := by
  unfold write
  cases houtput : o.output codecs g with
  | error f => exact ⟨[], rfl, .nothing f⟩
  | ok bytes =>
    obtain ⟨parts, ending, hlogged, hreceived, hfirst, hending⟩ :=
      sink.deliver_logged state bytes
    refine ⟨parts.map .took ++ [ending], ?_⟩
    simp only [hlogged, Delivery.failure_withLog]
    cases hfailure : (sink.deliver state bytes).failure with
    | none =>
      rw [hfailure] at hending
      obtain ⟨rfl, rfl⟩ := hending
      exact ⟨rfl, hreceived ▸ .whole parts⟩
    | some cause =>
      rw [hfailure] at hending
      obtain ⟨rest, rfl⟩ := hfirst
      exact ⟨rfl, hreceived ▸ .part parts rest hending⟩

/-- **What a sink receives.** Whatever the options, the grid and the sink, its log says that it has
    received nothing of an output that cannot be produced, the whole output and a flush if writing
    succeeds, and otherwise a first part of the output. The output is the image under the custom
    encoder if there is one, whatever the format; else the image under the encoder of its format, or
    the text of the document; and there is none if the encoder fails, whatever it produced before,
    or if the logo cannot be inlined. -/
theorem write_receives {σ : Type} (codecs : Codecs) (o : Options α) (g : Grid) (sink : Sink σ)
    (state : σ) :
    (∃ log, o.write codecs g sink.logged (state, []) =
        ((o.write codecs g sink state).1.withLog log, (o.write codecs g sink state).2) ∧
      Receives (o.output codecs g) (o.write codecs g sink state).1.received log
        (o.write codecs g sink state).2) ∧
    (∀ out, o.Outputs codecs g out ↔ o.output codecs g = out) ∧
    ∀ encoder, o.encoder = some encoder →
      o.output codecs g = (do encoded encoder (← Failure.ofFault (o.image g))) ∧
      ∀ img e, o.image g = .ok img → (encoder img).failure = some e →
        o.output codecs g = .error (.error e) := by
  refine ⟨write_logged codecs o g sink state, fun _ => outputs_iff, fun encoder hencoder => ?_⟩
  have himage : o.imageEncoder codecs = some encoder := by
    rw [imageEncoder, hencoder, Option.some_or]
  refine ⟨output_of_imageEncoder himage g, fun img e himg hfailure => ?_⟩
  have hencodes : o.Encodes codecs img (encoder img).bytes (some e) :=
    hfailure ▸ .custom hencoder
  exact outputs_iff.mp (.imageFailure himg hencodes)

/-- An encoder that fails after two bytes, and a logo without pixels, which cannot be inlined: a
    sink that would take everything hears of neither output. -/
theorem write_receives_nothing :
    let encoder : Encoder := fun _ => ⟨[1, 2], some (.encode "broken")⟩
    let settings : List (Setting ℚ) := [.format .svgPath, .blockWidth 1, .border [0]]
    let b : Builder ℚ := Builder.ofSettings (settings ++ [.encoder encoder])
    let b' : Builder ℚ := Builder.ofSettings (settings ++
      [.logo (Picture.ofFn .rgba 0 0 fun _ _ _ => 0)])
    let g := Grid.ofFn 1 1 fun _ _ => ⟨false, .data⟩
    let codecs : Codecs := { png _ := [], jpeg _ := [], inlined _ := "" }
    let sink : Sink Nat :=
      ⟨fun n bytes => (.ok bytes.length, n + bytes.length), fun n => (.ok (), n)⟩
    (∃ o img, b.build (fun _ => .error "missing") = .ok o ∧ o.encoder = some encoder ∧
      o.image g = .ok img ∧ (encoder img).failure = some (.encode "broken") ∧
      (o.write codecs g sink.logged (0, [])).1.state.2 = [] ∧
      (o.write codecs g sink.logged (0, [])).2 = .error (.error (.encode "broken"))) ∧
    ∃ o, b'.build (fun _ => .error "missing") = .ok o ∧ o.encoder = none ∧
      (o.write codecs g sink.logged (0, [])).1.state.2 = [] ∧
      (o.write codecs g sink.logged (0, [])).2 = .error (.error (.encode "no pixels")) := by
  intro encoder settings b b' g codecs sink
  have hnothing : ∀ (o : Options ℚ) (f : Failure), o.output codecs g = .error f →
      (o.write codecs g sink.logged (0, [])).1.state.2 = [] ∧
        (o.write codecs g sink.logged (0, [])).2 = .error f := by
    intro o f houtput
    obtain ⟨⟨log, hwrite, hreceives⟩, -⟩ := write_receives codecs o g sink 0
    rw [houtput] at hreceives
    rw [hwrite]
    show log = [] ∧ (o.write codecs g sink 0).2 = _
    generalize (o.write codecs g sink 0).1.received = received,
      (o.write codecs g sink 0).2 = result at hreceives ⊢
    cases hreceives
    exact ⟨rfl, rfl⟩
  constructor
  · obtain ⟨o, ho⟩ : ∃ o, b.build (fun _ => .error "missing") = .ok o := ⟨_, rfl⟩
    obtain ⟨hencoder, img, himg⟩ : o.encoder = some encoder ∧ ∃ img, o.image g = .ok img := by
      obtain rfl := Except.ok.inj ho
      exact ⟨rfl, _, rfl⟩
    have houtput := ((write_receives codecs o g sink 0).2.2 encoder hencoder).2 img _ himg rfl
    exact ⟨o, img, ho, hencoder, himg, rfl, hnothing o _ houtput⟩
  · obtain ⟨o, ho⟩ : ∃ o, b'.build (fun _ => .error "missing") = .ok o := ⟨_, rfl⟩
    have houtput : o.output codecs g = .error (.error (.encode "no pixels")) := by
      refine ((write_receives codecs o g sink 0).2.1 _).mp ?_
      obtain rfl := Except.ok.inj ho
      exact .logoFailure rfl rfl rfl rfl rfl rfl rfl
    have hencoder : o.encoder = none := by
      obtain rfl := Except.ok.inj ho
      rfl
    exact ⟨o, ho, hencoder, hnothing o _ houtput⟩

end Options

end QrRender
