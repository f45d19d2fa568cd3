import Mathlib.Logic.Relation
import Softmodem.Bbs.Doors

namespace Softmodem.Bbs

open CString

-- What a door may do to its caller.
inductive DoorMove (e : Env) (c : Caller) : Caller → Prop where
  | context (ctx : DoorContext) : DoorMove e c { c with doorCtx := ctx }
  | time : DoorMove e c (readTime e c).1
  | load (game key : String) : DoorMove e c (ask e c (.selectGame c.userId game key)).1
  | save (game key : String) (v : Int) : DoorMove e c (ask e c (.insertGame c.userId game key v)).1

def Played (e : Env) : Caller → Caller → Prop := Relation.ReflTransGen (DoorMove e)

namespace Played

variable {e : Env} {b c d : Caller}

theorem refl : Played e c c := Relation.ReflTransGen.refl

theorem trans (h : Played e b c) (h' : Played e c d) : Played e b d :=
  Relation.ReflTransGen.trans h h'

theorem ite {p : Prop} [Decidable p] (h : Played e b c) (h' : Played e b d) :
    Played e b (if p then c else d) := by
  split
  · exact h
  · exact h'

-- What every move of a door keeps is kept by the doors.
theorem invariant {R : Caller → Caller → Prop} (hrefl : ∀ c, R c c)
    (htrans : ∀ b c d, R b c → R c d → R b d) (hmove : ∀ c d, DoorMove e c d → R c d)
    (h : Played e c d) : R c d := by
  induction h with
  | refl => exact hrefl c
  | tail _ hlast ih => exact htrans _ _ _ ih (hmove _ _ hlast)

end Played

section Games

variable (e : Env) (c : Caller)

theorem gameLoad_played (game key : String) (fallback : Int) :
    Played e c (gameLoad e c game key fallback).1 := by
  have hasked : Played e c (ask e c (.selectGame c.userId game key)).1 := .single (.load game key)
  rw [gameLoad]
  split
  · next hask => rwa [hask] at hasked
  · next hask => rwa [hask] at hasked

theorem gameSave_played (game key : String) (v : Int) : Played e c (gameSave e c game key v) :=
  .single (.save game key v)

end Games

section Doors

variable (e : Env) (c : Caller)

theorem doorCtx_played (ctx : DoorContext) : Played e c { c with doorCtx := ctx } :=
  .single (.context ctx)

theorem setValue_played (i : Nat) (v : Int) : Played e c (setValue c i v) := doorCtx_played ..

theorem setRng_played (rng : UInt32) : Played e c (setRng c rng) := doorCtx_played ..

theorem setState_played (state : Int) : Played e c (setState c state) := doorCtx_played ..

theorem readTime_played : Played e c (readTime e c).1 := .single .time

theorem card_played : Played e c (card c).1 := setRng_played ..

theorem loadValue_played (i : Nat) (game key : String) (fallback : Int) :
    Played e c (loadValue e c i game key fallback) :=
  (gameLoad_played e c game key fallback).trans (setValue_played ..)

theorem saveValue_played (game key : String) (i : Nat) : Played e c (saveValue e c game key i) :=
  gameSave_played ..

theorem dealt_played (i : Nat) (v : Int) : Played e c (setValue (card c).1 i v) :=
  (card_played e c).trans (setValue_played ..)

theorem openBlackjack_played : Played e c (openBlackjack e c) :=
  (loadValue_played e c 0 "blackjack" "credits" 1000).trans <| (card_played e _).trans <|
    (dealt_played e _ 1 _).trans <| (dealt_played e _ 2 _).trans (setState_played ..)

theorem dealerDraws_played (left : Nat) : Played e c (dealerDraws left c) := by
  induction left generalizing c with
  | zero => exact .refl
  | succ left ih =>
      rw [dealerDraws]
      split
      · exact (dealt_played e c 2 _).trans (ih _)
      · exact .refl

theorem settleHand_played : Played e c (settleHand c) := by
  rw [settleHand]
  split
  · exact setValue_played ..
  · split
    · exact setValue_played ..
    · exact .refl

theorem nextHand_played : Played e c (openBlackjack e (saveValue e c "blackjack" "credits" 0)) :=
  (saveValue_played ..).trans (openBlackjack_played ..)

theorem inputBlackjack_played (line : Bytes) : Played e c (inputBlackjack e c line).1 := by
  rw [inputBlackjack]
  split
  · exact .refl
  · split
    · have hcard := dealt_played e c 1 (value c 1 + (card c).2)
      dsimp only
      split
      · exact (hcard.trans (setValue_played ..)).trans (nextHand_played ..)
      · exact hcard
    · split
      · exact ((dealerDraws_played e c _).trans (settleHand_played e _)).trans (nextHand_played ..)
      · exact .refl

theorem drawHangman_played : Played e c (drawHangman e c) := by
  rw [drawHangman]
  split
  · exact ((gameLoad_played e c "hangman" "wins" 0).trans (gameSave_played ..)).trans
      (setState_played ..)
  · exact .refl

theorem openHangman_played : Played e c (openHangman e c) := by
  rw [openHangman]
  apply Played.trans _ (drawHangman_played e _)
  exact ((setRng_played e c _).trans (setValue_played e _ 0 0)).trans (doorCtx_played e _ _)

theorem guess_played (ch : UInt8) : Played e c (guess c ch) := by
  rw [guess]
  split
  · dsimp only
    split
    · exact doorCtx_played ..
    · exact doorCtx_played ..
  · exact .refl

theorem inputHangman_played (line : Bytes) : Played e c (inputHangman e c line).1 := by
  rw [inputHangman]
  split
  · exact .refl
  · split
    · exact openHangman_played ..
    · have hguess := guess_played e c (upper (line.headD 0))
      dsimp only
      split
      · exact hguess.trans (setState_played ..)
      · exact hguess.trans (drawHangman_played ..)

theorem openSpaceTrader_played : Played e c (openSpaceTrader e c) :=
  ((loadValue_played ..).trans (loadValue_played ..)).trans (loadValue_played ..)

theorem saveSpaceTrader_played : Played e c (saveSpaceTrader e c) :=
  ((saveValue_played ..).trans (saveValue_played ..)).trans (saveValue_played ..)

theorem trade_played (line : Bytes) : Played e c (trade c line) := by
  rw [trade]
  dsimp only
  split
  · exact doorCtx_played ..
  · split
    · exact doorCtx_played ..
    · split
      · exact (setRng_played ..).trans (setValue_played ..)
      · exact .refl

theorem inputSpaceTrader_played (line : Bytes) : Played e c (inputSpaceTrader e c line).1 := by
  rw [inputSpaceTrader]
  split
  · exact saveSpaceTrader_played ..
  · exact (trade_played e c line).trans (saveSpaceTrader_played ..)

theorem openDungeon_played : Played e c (openDungeon e c) :=
  (((loadValue_played ..).trans (loadValue_played ..)).trans (loadValue_played ..)).trans
    (loadValue_played ..)

theorem saveDungeon_played : Played e c (saveDungeon e c) :=
  (((saveValue_played ..).trans (saveValue_played ..)).trans (saveValue_played ..)).trans
    (saveValue_played ..)

theorem explore_played : Played e c (explore c) := by
  have hset (d : Caller) (i j : Nat) (v w : Int) : Played e d (setValue (setValue d i v) j w) :=
    (setValue_played ..).trans (setValue_played ..)
  have hlevel (d : Caller) :
      Played e d (if value d 1 ≥ longLong (value d 0 * 50) then setValue d 0 (value d 0 + 1) else d) :=
    .ite (setValue_played ..) .refl
  have hhit (rng : UInt32) (hp : Int) : Played e c (setValue (setRng c rng) 2 hp) :=
    (setRng_played ..).trans (setValue_played ..)
  exact ((hhit ..).trans (.ite (hset ..) (hset ..))).trans (hlevel _)

theorem inputDungeon_played (line : Bytes) : Played e c (inputDungeon e c line).1 := by
  have hrest : Played e c (if starts line 'r' then setValue c 2 (20 + value c 0 * 3) else c) :=
    .ite (setValue_played ..) .refl
  have hexplore (d : Caller) : Played e d (if starts line 'e' then explore d else d) :=
    .ite (explore_played e d) .refl
  rw [inputDungeon]
  split
  · exact saveDungeon_played ..
  · exact (hrest.trans (hexplore _)).trans (saveDungeon_played ..)

theorem Door.open_played (door : Door) : Played e c (door.open e c) := by
  cases door with
  | blackjack => exact openBlackjack_played ..
  | hangman => exact openHangman_played ..
  | spaceTrader => exact openSpaceTrader_played ..
  | dungeon => exact openDungeon_played ..
  | speedChallenge =>
      exact ((readTime_played e c).trans (setValue_played e _ 0 _)).trans (setState_played e _ 1)

theorem Door.input_played (door : Door) (line : Bytes) : Played e c (door.input e c line).1 := by
  cases door with
  | blackjack => exact inputBlackjack_played ..
  | hangman => exact inputHangman_played ..
  | spaceTrader => exact inputSpaceTrader_played ..
  | dungeon => exact inputDungeon_played ..
  | speedChallenge => exact readTime_played ..

theorem openDoors_played : Played e c (openDoors e c) :=
  (readTime_played e c).trans (doorCtx_played e _ _)

end Doors

end Softmodem.Bbs
