import QrRender.Halftone

/-!
# The luma of a colour

The weights of the three channels add up to 65536, so that the weighted sum of the channels fills
its range to the very end: a half more is added to it, and the quotient is 255 at most. It is
computed in words of 32 bits, in which nothing wraps around.

* `lumaWord`, `lumaSteps`: the sum in words, and the numbers that it goes through;
* `lumaSum_lt`: the sum does not reach 256 times 65536;
* `lumaSteps_lt`, `toNat_lumaWord`: what it goes through fits into a word, and the sum in words is
  the exact one;
* `toNat_luma`: the luma is the quotient, of which nothing is cut off;
* `luma_mono`: the luma grows with every channel and with alpha;
* `luma_ofGray`, `luma_of_isClear`: greys keep their value, and clear colours are black;
* **`grayscale_exact`**: all of this for the pixels of a picture, and a grey picture is its own
  grey picture.
-/

namespace QrRender

/-- No channel of `a` is above that of `b`, and neither is alpha. -/
structure Rgba.AtMost (a b : Rgba) : Prop where
  red : a.red ≤ b.red
  green : a.green ≤ b.green
  blue : a.blue ≤ b.blue
  alpha : a.alpha ≤ b.alpha

namespace Halftone

/-! ## 1. In words of 32 bits -/

/-- A channel premultiplied by alpha, in words. -/
def premultipliedWord (v alpha : UInt8) : UInt32 := v.toUInt32 * alpha.toUInt32 / 255

/-- The weighted sum of the premultiplied channels, plus a half, in words. -/
def lumaWord (c : Rgba) : UInt32 :=
  19595 * premultipliedWord c.red c.alpha + 38470 * premultipliedWord c.green c.alpha
    + 7471 * premultipliedWord c.blue c.alpha + 32768

/-- The numbers that the weighted sum goes through: of each channel the product with alpha, its
    255th part and the weighted part, and then the sums from left to right. -/
def lumaSteps (c : Rgba) : List Nat :=
  let product (v : UInt8) : Nat := v.toNat * c.alpha.toNat
  let part (v : UInt8) : Nat := premultiplied v c.alpha
  [product c.red, part c.red, 19595 * part c.red,
    product c.green, part c.green, 38470 * part c.green,
    product c.blue, part c.blue, 7471 * part c.blue,
    19595 * part c.red + 38470 * part c.green,
    19595 * part c.red + 38470 * part c.green + 7471 * part c.blue,
    lumaSum c]

theorem product_le (v alpha : UInt8) : v.toNat * alpha.toNat ≤ 65025 :=
  Nat.mul_le_mul (Nat.le_of_lt_succ v.toNat_lt) (Nat.le_of_lt_succ alpha.toNat_lt)

theorem premultiplied_le (v alpha : UInt8) : premultiplied v alpha ≤ 255 :=
  Nat.div_le_div_right (product_le v alpha)

/-- The weights add up to 65536, and the half more does not make a whole. -/
theorem lumaSum_lt (c : Rgba) : lumaSum c < 65536 * 256 := by
  have hred := premultiplied_le c.red c.alpha
  have hgreen := premultiplied_le c.green c.alpha
  have hblue := premultiplied_le c.blue c.alpha
  unfold lumaSum
  omega

/-- No number on the way is too large for a word. -/
theorem lumaSteps_lt (c : Rgba) : ∀ n ∈ lumaSteps c, n < UInt32.size := by
  have hred := product_le c.red c.alpha
  have hgreen := product_le c.green c.alpha
  have hblue := product_le c.blue c.alpha
  have hsum := lumaSum_lt c
  unfold lumaSum at hsum
  simp only [lumaSteps, lumaSum, UInt32.size, List.forall_mem_cons, List.not_mem_nil,
    false_implies, implies_true, and_true]
  omega

theorem toNat_premultipliedWord (v alpha : UInt8) :
    (premultipliedWord v alpha).toNat = premultiplied v alpha := by
  have h := product_le v alpha
  simp only [premultipliedWord, premultiplied, UInt32.toNat_div, UInt32.toNat_mul,
    UInt8.toNat_toUInt32, UInt32.reduceToNat]
  rw [Nat.mod_eq_of_lt (by omega)]

/-- **The sum in words is the exact one.** -/
theorem toNat_lumaWord (c : Rgba) : (lumaWord c).toNat = lumaSum c := by
  have hsum := lumaSum_lt c
  unfold lumaSum at hsum
  simp only [lumaWord, lumaSum, UInt32.toNat_add, UInt32.toNat_mul, toNat_premultipliedWord,
    UInt32.reduceToNat]
  omega

/-! ## 2. The quotient -/

theorem lumaSum_div_le (c : Rgba) : lumaSum c / 65536 ≤ 255 :=
  Nat.le_of_lt_succ (Nat.div_lt_of_lt_mul (lumaSum_lt c))

/-- The quotient is a byte, of which nothing is cut off. -/
theorem toNat_luma (c : Rgba) : (luma c).toNat = lumaSum c / 65536 :=
  UInt8.toNat_ofNat_of_lt (Nat.lt_succ_of_le (lumaSum_div_le c))

/-- The luma in words. -/
theorem luma_eq_word (c : Rgba) : (lumaWord c >>> 16).toUInt8 = luma c := by
  apply UInt8.toNat_inj.mp
  have hle := lumaSum_div_le c
  rw [toNat_luma, UInt32.toNat_toUInt8, UInt32.toNat_shiftRight, toNat_lumaWord]
  show lumaSum c >>> 16 % 256 = _
  rw [Nat.shiftRight_eq_div_pow]
  omega

/-! ## 3. Order and fixed values -/

theorem premultiplied_mono {v v' alpha alpha' : UInt8} (hv : v ≤ v') (halpha : alpha ≤ alpha') :
    premultiplied v alpha ≤ premultiplied v' alpha' :=
  Nat.div_le_div_right
    (Nat.mul_le_mul (UInt8.le_iff_toNat_le.mp hv) (UInt8.le_iff_toNat_le.mp halpha))

/-- **The luma grows with every channel and with alpha.** -/
theorem luma_mono {a b : Rgba} (h : a.AtMost b) : luma a ≤ luma b := by
  have hred := premultiplied_mono h.red h.alpha
  have hgreen := premultiplied_mono h.green h.alpha
  have hblue := premultiplied_mono h.blue h.alpha
  rw [UInt8.le_iff_toNat_le, toNat_luma, toNat_luma]
  refine Nat.div_le_div_right ?_
  unfold lumaSum
  omega

/-- A channel of an opaque colour is kept by alpha. -/
theorem premultiplied_full (v : UInt8) : premultiplied v 255 = v.toNat :=
  Nat.mul_div_cancel v.toNat (by decide : 0 < 255)

/-- An opaque grey keeps its value. -/
theorem luma_ofGray (v : UInt8) : luma (Rgba.ofGray v) = v := by
  apply UInt8.toNat_inj.mp
  rw [toNat_luma]
  simp only [lumaSum, Rgba.ofGray, premultiplied_full]
  omega

/-- A clear colour is black. -/
theorem luma_of_isClear {c : Rgba} (h : c.isClear = true) : luma c = 0 := by
  have halpha : c.alpha = 0 := eq_of_beq h
  apply UInt8.toNat_inj.mp
  rw [toNat_luma]
  simp [lumaSum, premultiplied, halpha]

/-! ## 4. Pictures -/

theorem sample_grayscale (p : Picture) {x y : Nat} (hx : x < p.width) (hy : y < p.height) :
    (grayscale p).sample x y 0 = luma (p.color x y) :=
  Picture.sample_ofFn _ hx hy (by decide)

/-- **A grey picture is its own grey picture.** -/
theorem grayscale_grayscale (p : Picture) : grayscale (grayscale p) = grayscale p := by
  refine Picture.ofFn_congr fun x y k hx hy hk => ?_
  rw [Picture.color_of_gray rfl, luma_ofGray, sample_grayscale p hx hy]

/-- **The grey picture is exact.** It is grey and of the same size. At every pixel the weighted sum
    goes through numbers that fit into 32 bits and is the exact one in words, its quotient is 255 at
    most, and the sample is the quotient, in words too; it is zero for a clear colour, and the value
    of an opaque grey. Between pictures of any kind, a sample does not fall where no channel and no
    alpha does. The grey picture of a grey picture is that picture. -/
theorem grayscale_exact (p : Picture) :
    (grayscale p).kind = .gray ∧ (grayscale p).width = p.width ∧
      (grayscale p).height = p.height ∧
      (∀ x y, x < p.width → y < p.height →
        let c := p.color x y
        let v := (grayscale p).sample x y 0
        (∀ n ∈ lumaSteps c, n < UInt32.size) ∧ (lumaWord c).toNat = lumaSum c ∧
          lumaSum c / 65536 ≤ 255 ∧ v.toNat = lumaSum c / 65536 ∧
          v = (lumaWord c >>> 16).toUInt8 ∧ (c.isClear = true → v = 0) ∧
          ∀ u, c = Rgba.ofGray u → v = u) ∧
      (∀ (q : Picture) (x y : Nat), x < p.width → y < p.height → x < q.width → y < q.height →
        (p.color x y).AtMost (q.color x y) →
        (grayscale p).sample x y 0 ≤ (grayscale q).sample x y 0) ∧
      grayscale (grayscale p) = grayscale p := by
  refine ⟨rfl, rfl, rfl, fun x y hx hy => ?_, fun q x y hx hy hx' hy' hle => ?_,
    grayscale_grayscale p⟩
  · intro c v
    have hv : v = luma c := sample_grayscale p hx hy
    refine ⟨lumaSteps_lt c, toNat_lumaWord c, lumaSum_div_le c, ?_, ?_, fun hclear => ?_,
      fun u hu => ?_⟩
    · rw [hv, toNat_luma]
    · rw [hv, luma_eq_word]
    · rw [hv, luma_of_isClear hclear]
    · rw [hv, hu, luma_ofGray]
  · rw [sample_grayscale p hx hy, sample_grayscale q hx' hy']
    exact luma_mono hle

/-- An opaque white pixel, at the end of the range, and one that is half clear. -/
theorem grayscale_exact_white :
    let p := Picture.ofFn .grayAlpha 1 1 fun _ _ k => if k = 0 then 200 else 128
    let q := Picture.ofFn .rgba 1 1 fun _ _ _ => 255
    (p.color 0 0).AtMost (q.color 0 0) ∧ (grayscale p).sample 0 0 0 ≤ (grayscale q).sample 0 0 0 ∧
      ((grayscale p).sample 0 0 0).toNat = 100 ∧ (grayscale q).sample 0 0 0 = 255 := by
  intro p q
  have hp : p.color 0 0 = ⟨200, 200, 200, 128⟩ := by decide
  have hq : q.color 0 0 = Rgba.ofGray 255 := by decide
  have hle : (p.color 0 0).AtMost (q.color 0 0) := by
    rw [hp, hq]
    exact ⟨by decide, by decide, by decide, by decide⟩
  obtain ⟨-, -, -, hpixel, hmono, -⟩ := grayscale_exact p
  obtain ⟨-, -, -, hpixel', -, -⟩ := grayscale_exact q
  refine ⟨hle, hmono q 0 0 (by decide) (by decide) (by decide) (by decide) hle, ?_, ?_⟩
  · rw [(hpixel 0 0 (by decide) (by decide)).2.2.2.1, hp]
    decide
  · exact (hpixel' 0 0 (by decide) (by decide)).2.2.2.2.2.2 255 hq

end Halftone

end QrRender
