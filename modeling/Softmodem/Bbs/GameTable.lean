import Softmodem.Bbs.Away
import Softmodem.Lib.Vouching

namespace Softmodem.Bbs

open CString Transition Vouching

-- The rows the doors keep, and what each of them may hold.
def InRange (game key : String) (v : Int) : Prop :=
  if game = "blackjack" then key = "credits" ∧ 25 ∣ v
  else if game = "hangman" then key = "wins" ∧ 0 ≤ v
  else if game = "space" then
    key = "credits" ∧ 0 ≤ v ∨ key = "cargo" ∧ 0 ≤ v ∧ v ≤ 20 ∨ key = "port" ∧ 1 ≤ v ∧ v ≤ 12
  else if game = "dungeon" then
    key = "level" ∧ 1 ≤ v ∨ key = "xp" ∧ 0 ≤ v ∨ key = "hp" ∧ 0 < v ∨ key = "gold" ∧ 0 ≤ v
  else False

-- A number the database may give: far from the ends of the 64 bits it is kept in.
def Ample (v : Int) : Prop := -2 ^ 56 ≤ v ∧ v ≤ 2 ^ 56

instance : DecidablePred Ample := fun _ => inferInstanceAs (Decidable (_ ∧ _))

def Loads (x : Statement × Answer) : Prop := ∃ user game key, x.1 = .selectGame user game key

def GoodEntry : Statement × Answer → Prop
  | (.selectGame _ game key, .row columns _) =>
      InRange game key (columns.getD 0 0) ∧ Ample (columns.getD 0 0)
  | (.insertGame _ game key v, _) => InRange game key v
  | _ => True

theorem goodEntry_aside {x : Statement × Answer} (h : ¬ x.1.OfGame) : GoodEntry x := by
  obtain ⟨q, a⟩ := x
  cases q with
  | selectGame => exact absurd trivial h
  | insertGame => exact absurd trivial h
  | _ => trivial

-- How far a value may have moved from what was loaded; a rest gives three times the level.
def room (m : Int) (key : String) : Int := if key = "hp" then 4 * m else m

structure Holds (m : Int) (game key : String) (v : Int) : Prop where
  inRange : InRange game key v
  low : -room m key ≤ v
  high : v ≤ room m key

structure Bounded (m : Int) : Prop where
  low : 2 ^ 56 ≤ m
  high : m ≤ 2 ^ 58

theorem bounded_first : Bounded (2 ^ 56) := ⟨Int.le_refl _, by decide⟩

theorem bounded_second : Bounded (2 ^ 56 + 64) := ⟨by decide, by decide⟩

namespace Holds

variable {m m' v : Int} {game key : String}

theorem grow (h : Holds m game key v) (hm : m ≤ m') : Holds m' game key v := by
  obtain ⟨hrange, hlow, hhigh⟩ := h
  have hroom : room m key ≤ room m' key := by
    unfold room
    split <;> omega
  exact ⟨hrange, by omega, by omega⟩

theorem longLong (h : Holds m game key v) (hm : Bounded m) : longLong v = v := by
  obtain ⟨-, hlow, hhigh⟩ := h
  obtain ⟨hsmall, hlarge⟩ := hm
  have hroom : room m key ≤ 2 ^ 62 := by
    unfold room
    split <;> omega
  exact longLong_small (by omega) (by omega)

theorem of_ample (hrange : InRange game key v) (hv : Ample v) (hm : Bounded m) :
    Holds m game key v := by
  obtain ⟨hlow, hhigh⟩ := hv
  obtain ⟨hsmall, hlarge⟩ := hm
  have hroom : 2 ^ 56 ≤ room m key := by
    unfold room
    split <;> omega
  exact ⟨hrange, by omega, by omega⟩

end Holds

-- The values of a door's context that a row is kept for.
structure Kept (m : Int) (slots : List (Nat × String × String)) (c : Caller) : Prop where
  size : c.doorCtx.values.length = 8
  holds : ∀ slot ∈ slots, Holds m slot.2.1 slot.2.2 (value c slot.1)

namespace Kept

variable {m m' : Int} {slots slots' : List (Nat × String × String)} {c d : Caller}

theorem mono (h : Kept m slots c) (hsub : slots' ⊆ slots) : Kept m slots' c :=
  ⟨h.size, fun slot hslot => h.holds slot (hsub hslot)⟩

theorem grow (h : Kept m slots c) (hm : m ≤ m') : Kept m' slots c :=
  ⟨h.size, fun slot hslot => (h.holds slot hslot).grow hm⟩

theorem of_values (h : Kept m slots c) (hvalues : d.doorCtx.values = c.doorCtx.values) :
    Kept m slots d := by
  refine ⟨by rw [hvalues, h.size], fun slot hslot => ?_⟩
  rw [value, hvalues]
  exact h.holds slot hslot

theorem setRng (h : Kept m slots c) (rng : UInt32) : Kept m slots (setRng c rng) := h.of_values rfl

theorem setValue {i : Nat} {v : Int} (h : Kept m slots c) (hm : Bounded m)
    (hv : ∀ slot ∈ slots, slot.1 = i → Holds m slot.2.1 slot.2.2 v) :
    Kept m slots (setValue c i v) := by
  refine ⟨by simp [Bbs.setValue, h.size], fun slot hslot => ?_⟩
  have hold := h.holds slot hslot
  by_cases hi : slot.1 = i
  · by_cases hlt : i < 8
    · have hnew := hv slot hslot hi
      simpa [value, Bbs.setValue, hi, h.size, hlt, hnew.longLong hm] using hnew
    · simpa [value, Bbs.setValue, hi, h.size, hlt] using hold
  · simpa [value, Bbs.setValue, List.getElem?_set_ne (Ne.symm hi)] using hold

theorem cons {i : Nat} {game key : String} {v : Int} (h : Kept m slots c) (hm : Bounded m)
    (hi : i < 8) (hfresh : ∀ slot ∈ slots, slot.1 ≠ i) (hv : Holds m game key v) :
    Kept m ((i, game, key) :: slots) (Bbs.setValue c i v) := by
  have hset : Kept m slots (Bbs.setValue c i v) :=
    h.setValue hm fun slot hslot heq => absurd heq (hfresh slot hslot)
  refine ⟨hset.size, List.forall_mem_cons.mpr ⟨?_, hset.holds⟩⟩
  simpa [value, Bbs.setValue, h.size, hi, hv.longLong hm] using hv

end Kept

abbrev Plays (p : Prop) (c d : Caller) (q : Prop) : Prop :=
  Vouches Loads GoodEntry Caller.log p c d q

@[simp] theorem setValue_log (c : Caller) (i : Nat) (v : Int) : (setValue c i v).log = c.log := rfl

@[simp] theorem setValue_size (c : Caller) (i : Nat) (v : Int) :
    (setValue c i v).doorCtx.values.length = c.doorCtx.values.length := List.length_set

@[simp] theorem setRng_log (c : Caller) (rng : UInt32) : (setRng c rng).log = c.log := rfl

-- A stretch of a door, from the slots that are filled before it to those that are after it.
structure Keeps (m m' : Int) (slots slots' : List (Nat × String × String)) (c d : Caller) :
    Prop where
  plays : Plays (Kept m slots c) c d (Kept m' slots' d)
  size : d.doorCtx.values.length = c.doorCtx.values.length

namespace Keeps

variable {m m' m'' : Int} {slots slots' slots'' : List (Nat × String × String)} {b c d : Caller}

theorem refl (c : Caller) : Keeps m m slots slots c c := ⟨.quiet rfl id, rfl⟩

theorem trans (h : Keeps m m' slots slots' b c) (h' : Keeps m' m'' slots' slots'' c d) :
    Keeps m m'' slots slots'' b d :=
  ⟨h.plays.bind h'.plays, h'.size.trans h.size⟩

theorem of_eq (hlog : d.log = c.log)
    (hsize : d.doorCtx.values.length = c.doorCtx.values.length)
    (h : Kept m slots c → Kept m' slots' d) : Keeps m m' slots slots' c d :=
  ⟨.quiet hlog h, hsize⟩

theorem mono (h : Keeps m m' slots slots' c d) (hsub : slots'' ⊆ slots') :
    Keeps m m' slots slots'' c d :=
  ⟨h.plays.weaken id fun hkept => hkept.mono hsub, h.size⟩

theorem grow (h : Keeps m m' slots slots' c d) (hm : m' ≤ m'') : Keeps m m'' slots slots' c d :=
  ⟨h.plays.weaken id fun hkept => hkept.grow hm, h.size⟩

theorem setValue {i : Nat} {v : Int} (hle : m ≤ m') (hm : Bounded m')
    (h : Kept m slots c → ∀ slot ∈ slots, slot.1 = i → Holds m' slot.2.1 slot.2.2 v) :
    Keeps m m' slots slots c (setValue c i v) :=
  .of_eq rfl (setValue_size ..) fun hkept => (hkept.grow hle).setValue hm (h hkept)

theorem setState (c : Caller) (state : Int) : Keeps m m slots slots c (setState c state) :=
  .of_eq rfl rfl fun hkept => hkept.of_values rfl

theorem setRng (c : Caller) (rng : UInt32) : Keeps m m slots slots c (setRng c rng) :=
  .of_eq rfl rfl fun hkept => hkept.setRng rng

theorem card (c : Caller) : Keeps m m slots slots c (card c).1 := by
  have hrng : (Bbs.card c).1 = Bbs.setRng c (c.doorCtx.rng * 1664525 + 1013904223) := by
    simp only [Bbs.card]
  rw [hrng]
  exact setRng c _

end Keeps

section Games

variable (e : Env) {c : Caller} {p : Prop} {m : Int} {slots : List (Nat × String × String)}

theorem gameLoad_doorCtx (c : Caller) (game key : String) (fallback : Int) :
    (gameLoad e c game key fallback).1.doorCtx = c.doorCtx := by
  rw [gameLoad]
  split
  · next hask => rw [← congrArg Prod.fst hask, ask]
  · next hask => rw [← congrArg Prod.fst hask, ask]

theorem gameLoad_plays {game key : String} {fallback : Int}
    (h : InRange game key fallback ∧ Ample fallback) :
    Plays p c (gameLoad e c game key fallback).1
      (p ∧ InRange game key (gameLoad e c game key fallback).2 ∧
        Ample (gameLoad e c game key fallback).2) := by
  have hlog : (gameLoad e c game key fallback).1.log =
      c.log ++ [(.selectGame c.userId game key, (ask e c (.selectGame c.userId game key)).2)] := by
    rw [gameLoad, ← ask_log]
    split
    · next hask => rw [hask]
    · next hask => rw [hask]
  have hload : Loads (.selectGame c.userId game key, (ask e c (.selectGame c.userId game key)).2) :=
    ⟨_, _, _, rfl⟩
  refine .one hlog (fun _ hout => absurd hload hout) fun hp hgood => ⟨hp, ?_⟩
  have hrow := hgood hload
  rw [gameLoad]
  split
  · next columns text hask =>
    rw [hask] at hrow
    exact hrow
  · exact h

theorem gameSave_plays {game key : String} {v : Int} (h : p → InRange game key v) :
    Plays p c (gameSave e c game key v) p :=
  .one rfl (fun hp _ => h hp) fun hp _ => hp

theorem loadValue_keeps {i : Nat} {game key : String} {fallback : Int} (hm : Bounded m)
    (hi : i < 8) (hfresh : ∀ slot ∈ slots, slot.1 ≠ i)
    (hfallback : InRange game key fallback ∧ Ample fallback) :
    Keeps m m slots ((i, game, key) :: slots) c (loadValue e c i game key fallback) := by
  have hvalues := congrArg DoorContext.values (gameLoad_doorCtx e c game key fallback)
  refine ⟨(gameLoad_plays e hfallback).bind (.quiet rfl fun ⟨hkept, hv⟩ => ?_), ?_⟩
  · exact (hkept.of_values hvalues).cons hm hi hfresh (.of_ample hv.1 hv.2 hm)
  · rw [loadValue, setValue_size, hvalues]

theorem saveValue_keeps {i : Nat} {game key : String} (hslot : (i, game, key) ∈ slots) :
    Keeps m m slots slots c (saveValue e c game key i) :=
  ⟨(gameSave_plays e fun h => (h.holds _ hslot).inRange).weaken id fun h => h.of_values rfl, rfl⟩

end Games

def Door.slots : Door → List (Nat × String × String)
  | .blackjack => [(0, "blackjack", "credits")]
  | .hangman => []
  | .spaceTrader => [(2, "space", "port"), (1, "space", "cargo"), (0, "space", "credits")]
  | .dungeon =>
      [(3, "dungeon", "gold"), (2, "dungeon", "hp"), (1, "dungeon", "xp"), (0, "dungeon", "level")]
  | .speedChallenge => []

section Blackjack

variable (e : Env) (c : Caller) {m m' : Int}

abbrev InHand (m m' : Int) (c d : Caller) : Prop :=
  Keeps m m' Door.blackjack.slots Door.blackjack.slots c d

theorem drawn : InHand m m c (card c).1 := .card c

theorem dealt (hm : Bounded m) (i : Nat) (hi : i ≠ 0) (v : Int) : InHand m m c (setValue c i v) :=
  .setValue (Int.le_refl _) hm fun _ => by simp [Door.slots, Ne.symm hi]

theorem openBlackjack_keeps (hm : Bounded m) :
    Keeps m m [] Door.blackjack.slots c (openBlackjack e c) := by
  have hload : Keeps m m [] Door.blackjack.slots c (loadValue e c 0 "blackjack" "credits" 1000) :=
    loadValue_keeps e hm (by decide) (by simp) (by simp [InRange, Ample])
  apply hload.trans
  rw [openBlackjack]
  generalize loadValue e c 0 "blackjack" "credits" 1000 = loaded
  have hfirst := drawn loaded (m := m)
  generalize card loaded = first at hfirst ⊢
  obtain ⟨first, v⟩ := first
  apply hfirst.trans
  have hsecond := drawn first (m := m)
  dsimp only
  generalize card first = second at hsecond ⊢
  obtain ⟨second, w⟩ := second
  apply (hsecond.trans (dealt second hm 1 (by decide) (v + w))).trans
  dsimp only
  generalize setValue second 1 (v + w) = player
  have hdealer := drawn player (m := m)
  generalize card player = dealer at hdealer ⊢
  obtain ⟨dealer, v⟩ := dealer
  exact (hdealer.trans (dealt dealer hm 2 (by decide) v)).trans (.setState _ 1)

theorem dealerDraws_keeps (hm : Bounded m) (left : Nat) : InHand m m c (dealerDraws left c) := by
  induction left generalizing c with
  | zero => exact .refl c
  | succ left ih =>
      rw [dealerDraws]
      split
      · have hcard := drawn c (m := m)
        generalize card c = taken at hcard ⊢
        obtain ⟨taken, v⟩ := taken
        exact (hcard.trans (dealt taken hm 2 (by decide) _)).trans (ih _)
      · exact .refl c

-- A hand moves the balance by its wager.
theorem staked (hm' : Bounded (m + 64)) {v : Int}
    (h : 25 ∣ value c 0 → 25 ∣ v) (hlow : value c 0 - 25 ≤ v) (hhigh : v ≤ value c 0 + 25) :
    InHand m (m + 64) c (setValue c 0 v) := by
  refine .setValue (by omega) hm' fun hkept => ?_
  obtain ⟨hrange, hlower, hupper⟩ := hkept.holds (0, "blackjack", "credits") (by simp [Door.slots])
  simp [InRange] at hrange
  simp [room] at hlower hupper
  have hstaked : Holds (m + 64) "blackjack" "credits" v :=
    ⟨by simpa [InRange] using h hrange, by simp [room]; omega, by simp [room]; omega⟩
  simpa [Door.slots] using hstaked

theorem settleHand_keeps (hm' : Bounded (m + 64)) : InHand m (m + 64) c (settleHand c) := by
  rw [settleHand]
  split
  · exact staked c hm' (by omega) (by omega) (by omega)
  · split
    · exact staked c hm' (by omega) (by omega) (by omega)
    · exact (Keeps.refl c).grow (by omega)

theorem nextHand_keeps (hm : Bounded m) :
    InHand m m c (openBlackjack e (saveValue e c "blackjack" "credits" 0)) := by
  have hsave : InHand m m c (saveValue e c "blackjack" "credits" 0) :=
    saveValue_keeps e (by simp [Door.slots])
  exact (hsave.mono (List.nil_subset _)).trans (openBlackjack_keeps e _ hm)

theorem inputBlackjack_keeps (hm : Bounded m) (hm' : Bounded (m + 64)) (line : Bytes) :
    InHand m (m + 64) c (inputBlackjack e c line).1 := by
  rw [inputBlackjack]
  split
  · exact (Keeps.refl c).grow (by omega)
  · split
    · have hcard := drawn c (m := m)
      generalize card c = taken at hcard ⊢
      obtain ⟨taken, v⟩ := taken
      have hdealt := hcard.trans (dealt taken hm 1 (by decide) (value c 1 + v))
      dsimp only
      generalize setValue taken 1 (value c 1 + v) = player at hdealt ⊢
      split
      · exact (hdealt.trans (staked player hm' (by omega) (by omega) (by omega))).trans
          (nextHand_keeps e _ hm')
      · exact hdealt.grow (by omega)
    · split
      · exact ((dealerDraws_keeps c hm _).trans (settleHand_keeps _ hm')).trans
          (nextHand_keeps e _ hm')
      · exact (Keeps.refl c).grow (by omega)

end Blackjack

section Hangman

variable (e : Env) (c : Caller) {m : Int}

theorem drawHangman_keeps : Keeps m m [] [] c (drawHangman e c) := by
  rw [drawHangman]
  split
  · have hload : Plays (Kept m [] c) c (gameLoad e c "hangman" "wins" 0).1
        (Kept m [] c ∧ InRange "hangman" "wins" (gameLoad e c "hangman" "wins" 0).2 ∧
          Ample (gameLoad e c "hangman" "wins" 0).2) :=
      gameLoad_plays e (by simp [InRange, Ample])
    have hvalues := congrArg DoorContext.values (gameLoad_doorCtx e c "hangman" "wins" 0)
    generalize gameLoad e c "hangman" "wins" 0 = loaded at hload hvalues ⊢
    obtain ⟨loaded, wins⟩ := loaded
    refine ⟨(hload.bind (gameSave_plays e fun h => ?_)).bind (.quiet rfl fun h => ?_),
      congrArg List.length hvalues⟩
    · obtain ⟨-, hwins, -, hhigh⟩ := h
      simp [InRange] at hwins ⊢
      rw [longLong_small (by omega) (by omega)]
      omega
    · exact (h.1.of_values hvalues).of_values rfl
  · exact .refl c

theorem openHangman_keeps (hm : Bounded m) : Keeps m m [] [] c (openHangman e c) := by
  have hword (d : Caller) (word : Bytes) : Keeps m m [] [] d
      (drawHangman e { d with doorCtx := { d.doorCtx with word, guessed := [], state := 1 } }) := by
    apply Keeps.trans _ (drawHangman_keeps e _)
    exact .of_eq rfl rfl fun h => h.of_values rfl
  have hcleared (rng : UInt32) : Keeps m m [] [] c (setValue (setRng c rng) 0 0) :=
    (Keeps.setRng c rng).trans (.setValue (Int.le_refl _) hm (by simp))
  rw [openHangman]
  exact (hcleared _).trans (hword _ _)

theorem guess_keeps (hm : Bounded m) (ch : UInt8) : Keeps m m [] [] c (guess c ch) := by
  have hadded : Keeps m m [] [] c
      { c with doorCtx := { c.doorCtx with guessed := c.doorCtx.guessed ++ [ch] } } :=
    .of_eq rfl rfl fun h => h.of_values rfl
  rw [guess]
  split
  · dsimp only
    split
    · exact hadded.trans (.setValue (Int.le_refl _) hm (by simp))
    · exact hadded
  · exact .refl c

theorem inputHangman_keeps (hm : Bounded m) (line : Bytes) :
    Keeps m m [] [] c (inputHangman e c line).1 := by
  rw [inputHangman]
  split
  · exact .refl c
  · split
    · exact openHangman_keeps e c hm
    · have hguess := guess_keeps c hm (upper (line.headD 0))
      dsimp only
      split
      · exact hguess.trans (.setState _ 2)
      · exact hguess.trans (drawHangman_keeps e _)

end Hangman

theorem toNat_mod_lt (x : UInt32) {n : UInt32} (hn : 0 < n.toNat) : (x % n).toNat < n.toNat := by
  rw [UInt32.toNat_mod]
  exact Nat.mod_lt _ hn

section SpaceTrader

variable (e : Env) (c : Caller) {m : Int}

abbrev Aboard (m m' : Int) (c d : Caller) : Prop :=
  Keeps m m' Door.spaceTrader.slots Door.spaceTrader.slots c d

theorem openSpaceTrader_keeps (hm : Bounded m) :
    Keeps m m [] Door.spaceTrader.slots c (openSpaceTrader e c) :=
  ((loadValue_keeps e hm (by decide) (by simp) (by simp [InRange, Ample])).trans
    (loadValue_keeps e hm (by decide) (by simp) (by simp [InRange, Ample]))).trans
    (loadValue_keeps e hm (by decide) (by simp) (by simp [InRange, Ample]))

theorem saveSpaceTrader_keeps : Aboard m m c (saveSpaceTrader e c) :=
  ((saveValue_keeps e (by simp [Door.slots])).trans
    (saveValue_keeps e (by simp [Door.slots]))).trans (saveValue_keeps e (by simp [Door.slots]))

theorem traded (hm' : Bounded (m + 64)) {credits cargo : Int}
    (h : Kept m Door.spaceTrader.slots c →
      (0 ≤ credits ∧ credits ≤ m + 64) ∧ 0 ≤ cargo ∧ cargo ≤ 20) :
    Aboard m (m + 64) c (setValue (setValue c 0 credits) 1 cargo) := by
  refine .of_eq ((setValue_log ..).trans (setValue_log ..))
    ((setValue_size ..).trans (setValue_size ..)) fun hkept => ?_
  obtain ⟨⟨hcredits, hmost⟩, hcargo, hfull⟩ := h hkept
  have hlow := hm'.low
  have hmoney : Holds (m + 64) "space" "credits" credits :=
    ⟨by simpa [InRange] using hcredits, by simp [room]; omega, by simp [room]; omega⟩
  have hhold : Holds (m + 64) "space" "cargo" cargo :=
    ⟨by simp [InRange]; omega, by simp [room]; omega, by simp [room]; omega⟩
  exact ((hkept.grow (by omega)).setValue hm' (by simpa [Door.slots] using hmoney)).setValue hm'
    (by simpa [Door.slots] using hhold)

theorem trade_keeps (hm' : Bounded (m + 64)) (line : Bytes) :
    Aboard m (m + 64) c (trade c line) := by
  have hranges (h : Kept m Door.spaceTrader.slots c) :
      0 ≤ value c 0 ∧ value c 0 ≤ m ∧ 0 ≤ value c 1 ∧ value c 1 ≤ 20 ∧
        0 ≤ (value c 2).tmod 17 ∧ (value c 2).tmod 17 < 17 := by
    obtain ⟨hcredits, -, hmost⟩ := h.holds (0, "space", "credits") (by simp [Door.slots])
    obtain ⟨hcargo, -, -⟩ := h.holds (1, "space", "cargo") (by simp [Door.slots])
    obtain ⟨hport, -, -⟩ := h.holds (2, "space", "port") (by simp [Door.slots])
    simp [InRange] at hcredits hcargo hport
    simp [room] at hmost
    exact ⟨hcredits, hmost, hcargo.1, hcargo.2, Int.tmod_nonneg 17 (by omega),
      Int.tmod_lt_of_pos _ (by decide)⟩
  rw [trade]
  dsimp only
  generalize c.doorCtx.rng * 1664525 + 1013904223 = rng
  split
  · refine traded c hm' fun h => ?_
    have := hranges h
    omega
  · split
    · refine traded c hm' fun h => ?_
      have := hranges h
      omega
    · split
      · have hlt : ((rng >>> 16) % 12).toNat < 12 := toNat_mod_lt (rng >>> 16) (by decide)
        generalize ((rng >>> 16) % 12).toNat = port at hlt ⊢
        have hlow := hm'.low
        have hport : Holds (m + 64) "space" "port" (1 + port) :=
          ⟨by simp [InRange]; omega, by simp [room]; omega, by simp [room]; omega⟩
        exact (Keeps.setRng c rng).trans
          (.setValue (by omega) hm' fun _ => by simpa [Door.slots] using hport)
      · exact (Keeps.refl c).grow (by omega)

theorem inputSpaceTrader_keeps (hm' : Bounded (m + 64)) (line : Bytes) :
    Aboard m (m + 64) c (inputSpaceTrader e c line).1 := by
  rw [inputSpaceTrader]
  split
  · exact (saveSpaceTrader_keeps e c).grow (by omega)
  · exact (trade_keeps c hm' line).trans (saveSpaceTrader_keeps e _)

end SpaceTrader

section Dungeon

variable (e : Env) (c : Caller) {m : Int}

abbrev Below (m m' : Int) (c d : Caller) : Prop :=
  Keeps m m' Door.dungeon.slots Door.dungeon.slots c d

theorem openDungeon_keeps (hm : Bounded m) :
    Keeps m m [] Door.dungeon.slots c (openDungeon e c) :=
  (((loadValue_keeps e hm (by decide) (by simp) (by simp [InRange, Ample])).trans
    (loadValue_keeps e hm (by decide) (by simp) (by simp [InRange, Ample]))).trans
    (loadValue_keeps e hm (by decide) (by simp) (by simp [InRange, Ample]))).trans
    (loadValue_keeps e hm (by decide) (by simp) (by simp [InRange, Ample]))

theorem saveDungeon_keeps : Below m m c (saveDungeon e c) :=
  (((saveValue_keeps e (by simp [Door.slots])).trans
    (saveValue_keeps e (by simp [Door.slots]))).trans
    (saveValue_keeps e (by simp [Door.slots]))).trans (saveValue_keeps e (by simp [Door.slots]))

-- What the dungeon holds of its caller, but for the hit points.
structure Worth (m : Int) (c : Caller) : Prop where
  level : 1 ≤ value c 0 ∧ value c 0 ≤ m
  xp : 0 ≤ value c 1 ∧ value c 1 ≤ m
  gold : 0 ≤ value c 3 ∧ value c 3 ≤ m

theorem Kept.worth {slots : List (Nat × String × String)} {c : Caller} (h : Kept m slots c)
    (hslots : [(3, "dungeon", "gold"), (1, "dungeon", "xp"), (0, "dungeon", "level")] ⊆ slots) :
    Worth m c := by
  obtain ⟨hlevel, -, hmost⟩ := h.holds (0, "dungeon", "level") (hslots (by simp))
  obtain ⟨hxp, -, hmost'⟩ := h.holds (1, "dungeon", "xp") (hslots (by simp))
  obtain ⟨hgold, -, hmost''⟩ := h.holds (3, "dungeon", "gold") (hslots (by simp))
  simp [InRange] at hlevel hxp hgold
  simp [room] at hmost hmost' hmost''
  exact ⟨⟨hlevel, hmost⟩, ⟨hxp, hmost'⟩, ⟨hgold, hmost''⟩⟩

theorem holds_hp {v : Int} (hpos : 0 < v) (hmost : v ≤ 4 * m) : Holds m "dungeon" "hp" v :=
  ⟨by simpa [InRange] using hpos, by simp [room]; omega, by simpa [room] using hmost⟩

theorem holds_purse {key : String} (hkey : key = "xp" ∨ key = "gold") {v : Int} (hpos : 0 ≤ v)
    (hmost : v ≤ m) : Holds m "dungeon" key v := by
  rcases hkey with rfl | rfl
  · exact ⟨by simpa [InRange] using hpos, by simp [room]; omega, by simpa [room] using hmost⟩
  · exact ⟨by simpa [InRange] using hpos, by simp [room]; omega, by simpa [room] using hmost⟩

theorem half_bounds {v : Int} (h : 0 ≤ v) : 0 ≤ v.tdiv 2 ∧ v.tdiv 2 ≤ v := by
  rw [Int.tdiv_eq_ediv_of_nonneg h]
  omega

theorem fought_kept {c : Caller} {gain : Int}
    (h : Kept m [(3, "dungeon", "gold"), (1, "dungeon", "xp"), (0, "dungeon", "level")] c)
    (hhp : value c 2 ≤ 4 * m) (hm : Bounded m) (hm' : Bounded (m + 32)) (hgain : 0 ≤ gain)
    (hmost : gain ≤ 15) :
    Kept (m + 32) Door.dungeon.slots
      (if value c 2 ≤ 0 then
        setValue (setValue c 2 (20 + value c 0 * 3)) 3 ((value c 3).tdiv 2)
      else setValue (setValue c 1 (value c 1 + gain)) 3 (value c 3 + gain.tdiv 2)) := by
  obtain ⟨⟨hlevel, hlevel'⟩, ⟨hxp, hxp'⟩, ⟨hgold, hgold'⟩⟩ := h.worth (List.Subset.refl _)
  have hlow := hm.low
  have hgrown := h.grow (by omega : m ≤ m + 32)
  have hhalf := half_bounds hgold
  have hfound := half_bounds hgain
  split
  · have hwoken : Kept (m + 32) Door.dungeon.slots (setValue c 2 (20 + value c 0 * 3)) :=
      (hgrown.cons hm' (by decide) (by simp) (holds_hp (by omega) (by omega))).mono
        (by simp [Door.slots])
    have hpoorer := holds_purse (m := m + 32) (.inr rfl) (v := (value c 3).tdiv 2)
      (by omega) (by omega)
    exact hwoken.setValue hm' (by simpa [Door.slots] using hpoorer)
  · next halive =>
    have hkept : Kept (m + 32) Door.dungeon.slots c := by
      refine ⟨h.size, fun slot hslot => ?_⟩
      simp only [Door.slots, List.mem_cons, List.not_mem_nil, or_false] at hslot
      rcases hslot with rfl | rfl | rfl | rfl
      · exact hgrown.holds (3, "dungeon", "gold") (by simp)
      · exact holds_hp (by simp only; omega) (by simp only; omega)
      · exact hgrown.holds (1, "dungeon", "xp") (by simp)
      · exact hgrown.holds (0, "dungeon", "level") (by simp)
    have hlearnt := holds_purse (m := m + 32) (.inl rfl) (v := value c 1 + gain)
      (by omega) (by omega)
    have hricher := holds_purse (m := m + 32) (.inr rfl) (v := value c 3 + gain.tdiv 2)
      (by omega) (by omega)
    exact (hkept.setValue hm' (by simpa [Door.slots] using hlearnt)).setValue hm'
      (by simpa [Door.slots] using hricher)

theorem rose_keeps (hm' : Bounded (m + 32)) :
    Below m (m + 32) c
      (if value c 1 ≥ longLong (value c 0 * 50) then setValue c 0 (value c 0 + 1) else c) := by
  split
  · refine .setValue (by omega) hm' fun h => ?_
    obtain ⟨hlevel, hmost⟩ := (h.worth (by simp [Door.slots])).level
    have hnext : Holds (m + 32) "dungeon" "level" (value c 0 + 1) :=
      ⟨by simp [InRange]; omega, by simp [room]; omega, by simp [room]; omega⟩
    simpa [Door.slots] using hnext
  · exact (Keeps.refl c).grow (by omega)

-- The wounds first, then what the fight is worth, then the level.
theorem explore_keeps (hm : Bounded m) (hm' : Bounded (m + 64)) : Below m (m + 64) c (explore c) := by
  have hmid : Bounded (m + 32) := ⟨by have := hm.low; omega, by have := hm'.high; omega⟩
  have hwounded (rng : UInt32) (hit gain : Int) (hhit : 1 ≤ hit ∧ hit ≤ 8)
      (hgain : 4 ≤ gain ∧ gain ≤ 15) :
      Below m (m + 32) c
        (let d := setValue (setRng c rng) 2 (value c 2 - hit)
         if value d 2 ≤ 0 then
           setValue (setValue d 2 (20 + value d 0 * 3)) 3 ((value d 3).tdiv 2)
         else setValue (setValue d 1 (value d 1 + gain)) 3 (value d 3 + gain.tdiv 2)) := by
    refine .of_eq (by dsimp only; split <;> simp) (by dsimp only; split <;> simp [setRng]) fun h => ?_
    obtain ⟨hhp, -, hmost⟩ := h.holds (2, "dungeon", "hp") (by simp [Door.slots])
    simp [InRange] at hhp
    simp [room] at hmost
    have hlow := hm.low
    have hhigh := hm.high
    have hvalue : value (setValue (setRng c rng) 2 (value c 2 - hit)) 2 = value c 2 - hit := by
      have hset : value (setValue (setRng c rng) 2 (value c 2 - hit)) 2 =
          longLong (value c 2 - hit) := by
        simp [value, setValue, setRng, h.size]
      rw [hset, longLong_small (by omega) (by omega)]
    have hkept : Kept m [(3, "dungeon", "gold"), (1, "dungeon", "xp"), (0, "dungeon", "level")]
        (setValue (setRng c rng) 2 (value c 2 - hit)) :=
      ((h.setRng rng).mono (by simp [Door.slots])).setValue hm (by simp)
    exact fought_kept hkept (by omega) hm hmid (by omega) hgain.2
  have hrose (d : Caller) : Below (m + 32) (m + 64) d
      (if value d 1 ≥ longLong (value d 0 * 50) then setValue d 0 (value d 0 + 1) else d) := by
    have hend : Bounded (m + 32 + 32) := by rwa [Int.add_assoc]
    exact (rose_keeps d hend).grow (by omega)
  rw [explore]
  generalize c.doorCtx.rng * 1103515245 + 12345 = rng
  have hhit : ((rng >>> 16) % 8).toNat < 8 := toNat_mod_lt (rng >>> 16) (by decide)
  have hgain : ((rng >>> 20) % 12).toNat < 12 := toNat_mod_lt (rng >>> 20) (by decide)
  generalize ((rng >>> 16) % 8).toNat = hit at hhit ⊢
  generalize ((rng >>> 20) % 12).toNat = gain at hgain ⊢
  exact (hwounded rng (1 + hit) (4 + gain) (by omega) (by omega)).trans (hrose _)

theorem rested_keeps (hm : Bounded m) : Below m m c (setValue c 2 (20 + value c 0 * 3)) := by
  refine .setValue (Int.le_refl _) hm fun h => ?_
  obtain ⟨hlevel, hmost⟩ := (h.worth (by simp [Door.slots])).level
  have hlow := hm.low
  have hfull : Holds m "dungeon" "hp" (20 + value c 0 * 3) := holds_hp (by omega) (by omega)
  simpa [Door.slots] using hfull

theorem inputDungeon_keeps (hm : Bounded m) (hm' : Bounded (m + 64)) (line : Bytes) :
    Below m (m + 64) c (inputDungeon e c line).1 := by
  rw [inputDungeon]
  split
  · exact (saveDungeon_keeps e c).grow (by omega)
  · have hrested : Below m m c
        (if starts line 'r' then setValue c 2 (20 + value c 0 * 3) else c) := by
      split
      · exact rested_keeps c hm
      · exact .refl c
    have hexplored (d : Caller) :
        Below m (m + 64) d (if starts line 'e' then explore d else d) := by
      split
      · exact explore_keeps d hm hm'
      · exact (Keeps.refl d).grow (by omega)
    exact (hrested.trans (hexplored _)).trans (saveDungeon_keeps e _)

end Dungeon

section Door

variable (e : Env) (c : Caller) {m : Int}

theorem readTime_keeps {slots : List (Nat × String × String)} :
    Keeps m m slots slots c (readTime e c).1 :=
  .of_eq rfl rfl fun h => h.of_values rfl

theorem Door.open_keeps (hm : Bounded m) (door : Door) :
    Keeps m m [] door.slots c (door.open e c) := by
  cases door with
  | blackjack => exact openBlackjack_keeps e c hm
  | hangman => exact openHangman_keeps e c hm
  | spaceTrader => exact openSpaceTrader_keeps e c hm
  | dungeon => exact openDungeon_keeps e c hm
  | speedChallenge =>
      exact ((readTime_keeps e c).trans (.setValue (Int.le_refl _) hm (by simp))).trans
        (.setState _ 1)

theorem Door.input_keeps (hm : Bounded m) (hm' : Bounded (m + 64)) (door : Door) (line : Bytes) :
    Keeps m (m + 64) door.slots door.slots c (door.input e c line).1 := by
  cases door with
  | blackjack => exact inputBlackjack_keeps e c hm hm' line
  | hangman => exact (inputHangman_keeps e c hm line).grow (by omega)
  | spaceTrader => exact inputSpaceTrader_keeps e c hm' line
  | dungeon => exact inputDungeon_keeps e c hm hm' line
  | speedChallenge => exact (readTime_keeps e c).grow (by omega)

end Door

end Softmodem.Bbs
