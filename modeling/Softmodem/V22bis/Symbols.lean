import Mathlib.Algebra.Group.Prod
import Mathlib.Algebra.Order.Floor.Semiring
import Mathlib.Data.Fin.VecNotation
import Softmodem.Lib.Rounding
import Softmodem.V22bis.Scrambling

namespace Softmodem.V22bis

def v22bisConstellation : Symbol → Int × Int :=
  ![(1, 1), (3, 1), (1, 3), (3, 3),
    (-1, 1), (-1, 3), (-3, 1), (-3, 3),
    (-1, -1), (-3, -1), (-1, -3), (-3, -3),
    (1, -1), (1, -3), (3, -1), (3, -3)]

def spaceMapV22bis : Fin 6 → Fin 6 → Symbol :=
  ![![11, 9, 9, 6, 6, 7],
    ![10, 8, 8, 4, 4, 5],
    ![10, 8, 8, 4, 4, 5],
    ![13, 12, 12, 0, 0, 2],
    ![13, 12, 12, 0, 0, 2],
    ![15, 14, 14, 1, 1, 3]]

-- The value a float holds after an operation whose exact result is q.
def float (q : ℚ) : ℚ := Rounding.rounded 24 (-125) q

def rot45 : ℚ × ℚ := (float (894427 / 1000000), float (44721 / 100000))

def cfMul (a b : ℚ × ℚ) : ℚ × ℚ :=
  (float (float (a.1 * b.1) - float (a.2 * b.2)), float (float (a.1 * b.2) + float (a.2 * b.1)))

-- The conversion of a float to an int drops the fraction, towards zero on either side.
def truncate (q : ℚ) : Int := if 0 ≤ q then ⌊q⌋ else ⌈q⌉

def cell (q : ℚ) : Fin 6 :=
  let i := truncate (float (q + 3))
  Fin.ofNat 6 (if i > 5 then 5 else if i < 0 then 0 else i).toNat

def sliceSixteen (z : ℚ × ℚ) : Symbol := spaceMapV22bis (cell z.1) (cell z.2)

def sliceFour (z : ℚ × ℚ) : Symbol :=
  let zz := cfMul z rot45
  let nearest : Nat := 1
  let nearest := if zz.1 < 0 then nearest ||| 4 else nearest
  let nearest := if zz.2 < 0 then (nearest ^^^ 4) ||| 8 else nearest
  Fin.ofNat 16 nearest

def decision (sixteenWayDecisions : Bool) (z : ℚ × ℚ) : Symbol :=
  if sixteenWayDecisions then sliceSixteen z else sliceFour z

def point (v : Symbol) : ℚ × ℚ := ((v22bisConstellation v).1, (v22bisConstellation v).2)

def quarterTurn (z : ℚ × ℚ) : ℚ × ℚ := (-z.2, z.1)

def rotate (k : Nat) (z : ℚ × ℚ) : ℚ × ℚ := quarterTurn^[k] z

def turned (k : Fin 4) (v : Symbol) : Symbol :=
  constellationIndex (quadrant v + k) ⟨v.val % 4, by omega⟩

theorem constellation_turned :
    ∀ v, v22bisConstellation (turned 1 v) =
      (-(v22bisConstellation v).2, (v22bisConstellation v).1) := by
  decide

theorem turned_zero : ∀ v, turned 0 v = v := by
  decide

theorem turned_add_one : ∀ k v, turned (k + 1) v = turned 1 (turned k v) := by
  decide

theorem quarterTurn_point (v : Symbol) : quarterTurn (point v) = point (turned 1 v) := by
  simp [quarterTurn, point, constellation_turned v]

theorem rotate_point (k : Nat) (v : Symbol) :
    rotate k (point v) = point (turned (Fin.ofNat 4 k) v) := by
  induction k with
  | zero => exact congrArg point (turned_zero v).symm
  | succ k ih =>
      have hk : Fin.ofNat 4 (k + 1) = Fin.ofNat 4 k + 1 := by
        ext
        simp [Fin.val_add]
      rw [rotate, Function.iterate_succ_apply', ← rotate, ih, quarterTurn_point, hk,
        turned_add_one]

def cells (c : Int) : List (Fin 6) :=
  if c = -3 then [0] else if c = -1 then [1, 2] else if c = 1 then [3, 4] else [5]

theorem spaceMap_cells :
    ∀ v, ∀ i ∈ cells (v22bisConstellation v).1, ∀ j ∈ cells (v22bisConstellation v).2,
      spaceMapV22bis i j = v := by
  decide

theorem constellation_odd :
    ∀ v, (v22bisConstellation v).1 ∈ [-3, -1, 1, 3] ∧
      (v22bisConstellation v).2 ∈ [-3, -1, 1, 3] := by
  decide

theorem truncate_bounds {n : Int} {q : ℚ} (hn : -1 ≤ n) (hlow : n < q) (hhigh : q < n + 2) :
    (truncate q = n ∨ truncate q = n + 1) ∧ 0 ≤ truncate q := by
  have hn' : (-1 : ℚ) ≤ n := by exact_mod_cast hn
  unfold truncate
  split
  next hq =>
    have hfloor : n < ⌊q⌋ + 1 ∧ ⌊q⌋ < n + 2 := by
      constructor
      · exact_mod_cast hlow.trans (Int.lt_floor_add_one q)
      · exact_mod_cast (Int.floor_le q).trans_lt hhigh
    have hnonneg : 0 ≤ ⌊q⌋ := Int.floor_nonneg.mpr hq
    omega
  next hq =>
    have hq : q < 0 := not_le.mp hq
    have hceil : ⌈q⌉ = 0 := by
      refine Int.ceil_eq_iff.mpr ⟨?_, ?_⟩
      · push_cast
        linarith
      · exact_mod_cast hq.le
    have hminus : n = -1 := by
      have : n < 0 := by exact_mod_cast hlow.trans hq
      omega
    omega

-- Half a last place of the sum z + 3 is what the rounding can move the decision by.
def margin : ℚ := 1 - 1 / 2 ^ 22

theorem float_error {q : ℚ} (h : |q| < 8) : |float q - q| ≤ 1 / 2 ^ 22 := by
  have hulp : Rounding.ulp 24 (-125) q ≤ 1 / 2 ^ 21 := by
    refine (Rounding.ulp_le (k := 3) ?_ (by decide) (by decide)).trans ?_
    · norm_num
      exact h
    · norm_num
  have herror := Rounding.rounded_error 24 (-125) q
  unfold float
  linarith

theorem cell_mem {c : Int} (hc : c ∈ [(-3 : Int), -1, 1, 3]) {δ : ℚ} (hδ : |δ| < margin) :
    cell (c + δ) ∈ cells c := by
  obtain ⟨hlow, hhigh⟩ := abs_lt.mp hδ
  rw [margin] at hlow hhigh
  simp only [List.mem_cons, List.not_mem_nil, or_false] at hc
  have hsmall : (-3 : ℚ) ≤ c ∧ (c : ℚ) ≤ 3 := by
    constructor
    · exact_mod_cast (by omega : -3 ≤ c)
    · exact_mod_cast (by omega : c ≤ 3)
  have herror : |float (c + δ + 3) - (c + δ + 3)| ≤ 1 / 2 ^ 22 := by
    apply float_error
    rw [abs_lt]
    constructor <;> linarith
  obtain ⟨hunder, hover⟩ := abs_le.mp herror
  have hbounds : (truncate (float (c + δ + 3)) = c + 2 ∨
      truncate (float (c + δ + 3)) = c + 2 + 1) ∧ 0 ≤ truncate (float (c + δ + 3)) := by
    refine truncate_bounds (by omega) ?_ ?_
    · push_cast
      linarith
    · push_cast
      linarith
  unfold cell
  generalize truncate (float (c + δ + 3)) = i at hbounds
  obtain ⟨hi, hnonneg⟩ := hbounds
  rcases hc with rfl | rfl | rfl | rfl <;> rcases hi with rfl | rfl
  · omega
  all_goals decide

theorem sliceSixteen_point (v : Symbol) {δ : ℚ × ℚ} (hre : |δ.1| < margin)
    (him : |δ.2| < margin) : sliceSixteen (point v + δ) = v := by
  obtain ⟨hodd, hodd'⟩ := constellation_odd v
  exact spaceMap_cells v _ (cell_mem hodd hre) _ (cell_mem hodd' him)

theorem sliceFour_point : ∀ v : Symbol, v.val % 4 = 1 → sliceFour (point v) = v := by
  decide +kernel

-- The noise the decision rule stands: none four ways, less than the margin sixteen ways.
def Tolerated (sixteen : Bool) (δ : ℚ × ℚ) : Prop :=
  if sixteen then |δ.1| < margin ∧ |δ.2| < margin else δ = 0

def Sliceable (sixteen : Bool) (v : Symbol) : Prop := sixteen = false → v.val % 4 = 1

theorem turned_sliceable {sixteen : Bool} {v : Symbol} (k : Fin 4) (h : Sliceable sixteen v) :
    Sliceable sixteen (turned k v) := by
  intro hs
  have := h hs
  simp [turned, constellationIndex]
  omega

theorem decision_rotated {sixteen : Bool} (k : Nat) {v : Symbol} {δ : ℚ × ℚ}
    (hv : Sliceable sixteen v) (hδ : Tolerated sixteen δ) :
    decision sixteen (rotate k (point v) + δ) = turned (Fin.ofNat 4 k) v := by
  rw [rotate_point]
  cases sixteen with
  | true => exact sliceSixteen_point _ hδ.1 hδ.2
  | false =>
      have hzero : δ = 0 := hδ
      rw [hzero, add_zero]
      exact sliceFour_point _ (turned_sliceable _ hv rfl)

def encodeSymbol (q : Fin 4) : List Bool → Symbol
  | [hi, lo, hi', lo'] => constellationIndex (q + phaseSteps (dibit hi lo)) (dibit hi' lo')
  | [hi, lo] => constellationIndex (q + phaseSteps (dibit hi lo)) 1
  | _ => constellationIndex q 1

def decodedBits (sixteen : Bool) (last nearest : Symbol) : List Bool :=
  let raw := phaseSteps (quadrant nearest - quadrant last)
  [raw.val.testBit 1, raw.val.testBit 0] ++
    if sixteen then [nearest.val.testBit 1, nearest.val.testBit 0] else []

theorem decoded_encoded :
    ∀ (k q : Fin 4) (last : Symbol) (hi lo hi' lo' : Bool), quadrant last = q + k →
      decodedBits true last (turned k (encodeSymbol q [hi, lo, hi', lo'])) = [hi, lo, hi', lo'] ∧
        decodedBits false last (turned k (encodeSymbol q [hi, lo])) = [hi, lo] := by
  decide


def endless (source : Nat → Bool) (u : Nat) : Option Bool × Nat := (some (source u), u + 1)

def drawnBits (source : Nat → Bool) (s : V22bisState) (u : Nat) : List Bool :=
  let (t, hi, u) := getScrambledBit (endless source) s.tx u
  let (t, lo, u) := getScrambledBit (endless source) t u
  let t := advance t (dibit hi lo)
  if s.negotiatedBitRate = 1200 then [hi, lo]
  else
    let (t, hi', u) := getScrambledBit (endless source) t u
    let (_, lo', _) := getScrambledBit (endless source) t u
    [hi, lo, hi', lo']

structure SameLine (t t' : Tx) : Prop where
  training : t'.training = t.training
  shutdown : t'.shutdown = t.shutdown
  constellationState : t'.constellationState = t.constellationState

theorem SameLine.trans {t t' t'' : Tx} (h : SameLine t t') (h' : SameLine t' t'') :
    SameLine t t'' :=
  ⟨h'.training.trans h.training, h'.shutdown.trans h.shutdown,
    h'.constellationState.trans h.constellationState⟩

theorem getScrambledBit_endless (source : Nat → Bool) (t : Tx) (u : Nat) :
    SameLine t (getScrambledBit (endless source) t u).1 := by
  unfold getScrambledBit
  split
  · exact ⟨rfl, rfl, rfl⟩
  · exact ⟨rfl, rfl, rfl⟩

structure Sending (sixteen : Bool) (s : V22bisState) : Prop where
  training : s.tx.training = .normalOperation
  shutdown : s.tx.shutdown = 0
  rate : s.negotiatedBitRate = if sixteen then 2400 else 1200

structure Sent (sixteen : Bool) (s : V22bisState) (bits : List Bool) (sent : Option Symbol)
    (s' : V22bisState) : Prop where
  symbol : sent = some (encodeSymbol s.tx.constellationState bits)
  length : bits.length = if sixteen then 4 else 2
  sending : Sending sixteen s'
  constellationState :
    s'.tx.constellationState = quadrant (encodeSymbol s.tx.constellationState bits)

theorem getbaud_sent {sixteen : Bool} {s : V22bisState} (h : Sending sixteen s)
    (source : Nat → Bool) (u : Nat) :
    Sent sixteen s (drawnBits source s u) (getbaud (endless source) s u).1
      (getbaud (endless source) s u).2.1 := by
  have hnormal : ¬ s.tx.training ≠ .normalOperation := fun hne => hne h.training
  have hup : ¬ s.tx.shutdown ≠ 0 := fun hne => hne h.shutdown
  have hrun : ¬ s.tx.shutdown > 10 := by
    rw [h.shutdown]
    decide
  unfold getbaud drawnBits
  rw [if_neg hnormal, if_neg hup]
  dsimp only
  rw [if_neg hrun]
  have hhi := getScrambledBit_endless source s.tx u
  generalize getScrambledBit (endless source) s.tx u = first at hhi
  obtain ⟨t₁, hi, u₁⟩ := first
  have hlo := hhi.trans (getScrambledBit_endless source t₁ u₁)
  dsimp only
  generalize getScrambledBit (endless source) t₁ u₁ = second at hlo
  obtain ⟨t₂, lo, u₂⟩ := second
  dsimp only at hlo ⊢
  cases sixteen with
  | false =>
      have hrate : s.negotiatedBitRate = 1200 := h.rate
      rw [if_pos hrate, if_pos hrate]
      refine ⟨?_, rfl, ⟨hlo.training.trans h.training, hlo.shutdown.trans h.shutdown, hrate⟩, ?_⟩
      · simp [advance, encodeSymbol, hlo.constellationState]
      · simp [advance, encodeSymbol, hlo.constellationState, quadrant_constellationIndex]
  | true =>
      have hrate : s.negotiatedBitRate = 2400 := h.rate
      have hfast : ¬ s.negotiatedBitRate = 1200 := by omega
      rw [if_neg hfast, if_neg hfast]
      have hthird := getScrambledBit_endless source (advance t₂ (dibit hi lo)) u₂
      generalize getScrambledBit (endless source) (advance t₂ (dibit hi lo)) u₂ = third at hthird
      obtain ⟨t₃, hi', u₃⟩ := third
      have hlast := hthird.trans (getScrambledBit_endless source t₃ u₃)
      dsimp only
      generalize getScrambledBit (endless source) t₃ u₃ = fourth at hlast
      obtain ⟨t₄, lo', u₄⟩ := fourth
      have hq : t₄.constellationState = s.tx.constellationState + phaseSteps (dibit hi lo) := by
        rw [hlast.constellationState, advance, hlo.constellationState]
      refine ⟨?_, rfl, ⟨?_, ?_, hrate⟩, ?_⟩
      · simp [encodeSymbol, hq]
      · exact hlast.training.trans (hlo.training.trans h.training)
      · exact hlast.shutdown.trans (hlo.shutdown.trans h.shutdown)
      · simp [encodeSymbol, hq, quadrant_constellationIndex]

def sendBauds (source : Nat → Bool) : Nat → V22bisState → Nat → List (Option Symbol × List Bool)
  | 0, _, _ => []
  | n + 1, s, u =>
      let (sent, s', _, u') := getbaud (endless source) s u
      (sent, drawnBits source s u) :: sendBauds source n s' u'

def line (k : Nat) (noise : Nat → ℚ × ℚ) : Nat → List (Option Symbol × List Bool) → List (ℚ × ℚ)
  | _, [] => []
  | j, (none, _) :: sent => line k noise (j + 1) sent
  | j, (some v, _) :: sent => (rotate k (point v) + noise j) :: line k noise (j + 1) sent

def decodeSample (r : Rx) (z : ℚ × ℚ) : Rx × List Bool :=
  let nearest := decision r.sixteenWayDecisions z
  ((decodeBaud r nearest).1, decodedBits r.sixteenWayDecisions r.constellationState nearest)

def decodeLine (r : Rx) (zs : List (ℚ × ℚ)) : List (List Bool) := (Mealy.run decodeSample r zs).2

theorem decodeBaud_decodes (r : Rx) (nearest : Symbol) :
    decodeBaud r nearest =
      let heard := descrambleAll { r with constellationState := nearest }
        (decodedBits r.sixteenWayDecisions r.constellationState nearest)
      (heard.1, heard.2.map RxOut.bit) := by
  rcases hsix : r.sixteenWayDecisions with _ | _
  · simp [decodeBaud, putBit, descrambleAll, decodedBits, rawBits, hsix, descramble]
  · simp [decodeBaud, putBit, descrambleAll, decodedBits, rawBits, hsix, descramble]

theorem decodeBaud_kept (r : Rx) (nearest : Symbol) :
    (decodeBaud r nearest).1.sixteenWayDecisions = r.sixteenWayDecisions ∧
      (decodeBaud r nearest).1.constellationState = nearest := by
  rcases hsix : r.sixteenWayDecisions with _ | _
  · simp [decodeBaud, putBit, hsix, descramble]
  · simp [decodeBaud, putBit, hsix, descramble]

theorem encoded_sliceable {sixteen : Bool} {bits : List Bool} (q : Fin 4)
    (h : bits.length = if sixteen then 4 else 2) : Sliceable sixteen (encodeSymbol q bits) := by
  rintro rfl
  obtain ⟨hi, lo, rfl⟩ := List.length_eq_two.mp h
  simp [encodeSymbol, constellationIndex]

theorem decoded_of_quadrant {sixteen : Bool} {bits : List Bool} {k q : Fin 4} {last : Symbol}
    (h : bits.length = if sixteen then 4 else 2) (hlast : quadrant last = q + k) :
    decodedBits sixteen last (turned k (encodeSymbol q bits)) = bits := by
  cases sixteen with
  | false =>
      obtain ⟨hi, lo, rfl⟩ := List.length_eq_two.mp h
      exact (decoded_encoded k q last hi lo false false hlast).2
  | true =>
      match bits, h with
      | [hi, lo, hi', lo'], _ => exact (decoded_encoded k q last hi lo hi' lo' hlast).1

theorem quadrant_turned : ∀ k v, quadrant (turned k v) = quadrant v + k := by
  decide

section Link

variable {sixteen : Bool} {source : Nat → Bool} {k : Nat} {noise : Nat → ℚ × ℚ}

theorem sendBauds_succ (n : Nat) {s : V22bisState} (hs : Sending sixteen s) (u : Nat) :
    sendBauds source (n + 1) s u =
      (some (encodeSymbol s.tx.constellationState (drawnBits source s u)),
        drawnBits source s u) ::
          sendBauds source n (getbaud (endless source) s u).2.1
            (getbaud (endless source) s u).2.2.2 := by
  simp only [sendBauds, (getbaud_sent hs source u).symbol]

-- Whatever the receiver held before, one symbol leaves it with the quadrant it heard.
theorem decodeLine_succ (hnoise : ∀ j, Tolerated sixteen (noise j)) (n j : Nat)
    {s : V22bisState} (hs : Sending sixteen s) (u : Nat) {r : Rx}
    (hr : r.sixteenWayDecisions = sixteen) :
    ∃ r', r'.sixteenWayDecisions = sixteen ∧
      quadrant r'.constellationState =
        (getbaud (endless source) s u).2.1.tx.constellationState + Fin.ofNat 4 k ∧
      decodeLine r (line k noise j (sendBauds source (n + 1) s u)) =
        decodedBits sixteen r.constellationState (turned (Fin.ofNat 4 k)
            (encodeSymbol s.tx.constellationState (drawnBits source s u))) ::
          decodeLine r' (line k noise (j + 1) (sendBauds source n
            (getbaud (endless source) s u).2.1 (getbaud (endless source) s u).2.2.2)) := by
  obtain ⟨-, hlength, -, hstate⟩ := getbaud_sent hs source u
  have hslice := decision_rotated k (encoded_sliceable s.tx.constellationState hlength) (hnoise j)
  obtain ⟨hsix, hnearest⟩ := decodeBaud_kept r
    (turned (Fin.ofNat 4 k) (encodeSymbol s.tx.constellationState (drawnBits source s u)))
  refine ⟨_, hsix.trans hr, ?_, ?_⟩
  · rw [hnearest, quadrant_turned, hstate]
  · rw [sendBauds_succ n hs u]
    simp only [line, decodeLine, Mealy.run_cons, decodeSample, hr, hslice]

theorem decodeLine_sent (hnoise : ∀ j, Tolerated sixteen (noise j)) (n j : Nat)
    {s : V22bisState} (hs : Sending sixteen s) (u : Nat) {r : Rx}
    (hr : r.sixteenWayDecisions = sixteen)
    (hq : quadrant r.constellationState = s.tx.constellationState + Fin.ofNat 4 k) :
    decodeLine r (line k noise j (sendBauds source n s u)) =
      (sendBauds source n s u).map Prod.snd := by
  induction n generalizing j s u r with
  | zero => rfl
  | succ n ih =>
      obtain ⟨-, hlength, hsending, -⟩ := getbaud_sent hs source u
      obtain ⟨r', hr', hq', hdecoded⟩ := decodeLine_succ hnoise n j hs u hr
      rw [hdecoded, sendBauds_succ n hs u, List.map_cons, decoded_of_quadrant hlength hq,
        ih (j + 1) hsending _ hr' hq']

theorem decodeLine_tail (hnoise : ∀ j, Tolerated sixteen (noise j)) (n : Nat)
    {s : V22bisState} (hs : Sending sixteen s) (u : Nat) {r : Rx}
    (hr : r.sixteenWayDecisions = sixteen) :
    (decodeLine r (line k noise 0 (sendBauds source n s u))).tail =
      ((sendBauds source n s u).map Prod.snd).tail := by
  cases n with
  | zero => rfl
  | succ n =>
      obtain ⟨r', hr', hq', hdecoded⟩ := decodeLine_succ hnoise n 0 hs u hr
      rw [hdecoded, sendBauds_succ n hs u, List.map_cons, List.tail_cons, List.tail_cons]
      exact decodeLine_sent hnoise n 1 (getbaud_sent hs source u).sending _ hr' hq'

theorem sendBauds_symbols (n : Nat) {s : V22bisState} (hs : Sending sixteen s) (u : Nat) :
    (sendBauds source n s u).length = n ∧ ∀ x ∈ sendBauds source n s u, x.1.isSome := by
  induction n generalizing s u with
  | zero => exact ⟨rfl, fun _ hx => absurd hx List.not_mem_nil⟩
  | succ n ih =>
      obtain ⟨hlength, hsome⟩ := ih (getbaud_sent hs source u).sending
        (getbaud (endless source) s u).2.2.2
      rw [sendBauds_succ n hs u]
      constructor
      · simpa using hlength
      · intro x hx
        rcases List.mem_cons.mp hx with rfl | hx
        · rfl
        · exact hsome x hx

end Link

theorem symbols_carry_the_scrambled_bits (sixteen : Bool) (source : Nat → Bool)
    (s : V22bisState) (u n k : Nat) (noise : Nat → ℚ × ℚ) (r : Rx)
    (hs : Sending sixteen s) (hr : r.sixteenWayDecisions = sixteen)
    (hnoise : ∀ j, Tolerated sixteen (noise j)) :
    let sent := sendBauds source n s u
    let decoded := decodeLine r (line k noise 0 sent)
    (sent.length = n ∧ ∀ x ∈ sent, x.1.isSome) ∧
      decoded.tail = (sent.map Prod.snd).tail ∧
      (quadrant r.constellationState = s.tx.constellationState + Fin.ofNat 4 k →
        decoded = sent.map Prod.snd) ∧
      ∀ r' nearest, decodeBaud r' nearest =
        let heard := descrambleAll { r' with constellationState := nearest }
          (decodedBits r'.sixteenWayDecisions r'.constellationState nearest)
        (heard.1, heard.2.map RxOut.bit) := by
  intro sent decoded
  refine ⟨sendBauds_symbols n hs u, decodeLine_tail hnoise n hs u hr, ?_, decodeBaud_decodes⟩
  intro hq
  exact decodeLine_sent hnoise n 0 hs u hr hq

def fastSender : V22bisState := { v22bisZero with negotiatedBitRate := 2400 }

def fastReceiver : Rx := { v22bisZero.rx with sixteenWayDecisions := true }

theorem three_noisy_symbols_decode :
    (decodeLine fastReceiver
        (line 1 (fun _ => (1 / 2, -1 / 2)) 0 (sendBauds (fun _ => true) 3 fastSender 0))).tail =
      ((sendBauds (fun _ => true) 3 fastSender 0).map Prod.snd).tail := by
  have hnoise : Tolerated true ((1 / 2, -1 / 2) : ℚ × ℚ) := by
    constructor
    · norm_num [margin]
    · norm_num [margin, abs_lt]
  exact (symbols_carry_the_scrambled_bits true (fun _ => true) fastSender 0 3 1
    (fun _ => (1 / 2, -1 / 2)) fastReceiver ⟨rfl, rfl, rfl⟩ rfl fun _ => hnoise).2.1

-- At the margin the coordinate 1 gives 5 - 1/2^22, half way between two floats and rounded to 5.
theorem noise_at_the_margin_is_rounded_away :
    ¬ ∀ (source : Nat → Bool) (s : V22bisState) (u n k : Nat) (noise : Nat → ℚ × ℚ) (r : Rx),
      Sending true s → r.sixteenWayDecisions = true →
      (∀ j, |(noise j).1| < 1 ∧ |(noise j).2| < 1) →
      (decodeLine r (line k noise 0 (sendBauds source n s u))).tail =
        ((sendBauds source n s u).map Prod.snd).tail := by
  intro h
  have hnoise : |margin| < 1 ∧ |(0 : ℚ)| < 1 := by norm_num [margin, abs_lt]
  have hwrong : (decodeLine fastReceiver (line 0 (fun _ => (margin, 0)) 0
      (sendBauds (fun _ => true) 4 fastSender 0))).tail ≠
        ((sendBauds (fun _ => true) 4 fastSender 0).map Prod.snd).tail := by
    decide +kernel
  exact hwrong (h (fun _ => true) fastSender 0 4 0 (fun _ => (margin, 0)) fastReceiver
    ⟨rfl, rfl, rfl⟩ rfl fun _ => hnoise)

end Softmodem.V22bis
