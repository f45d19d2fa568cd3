import Softmodem.Bbs.Caller

namespace Softmodem.Bbs

open CString

inductive Door where
  | blackjack | hangman | spaceTrader | dungeon | speedChallenge
  deriving DecidableEq, Repr

def strcasecmp (s : Bytes) (word : String) : Bool := s.map lower = (ascii word).map lower

def doorKeys : List (String × Door) :=
  [("1", .blackjack), ("2", .hangman), ("3", .spaceTrader), ("4", .dungeon),
    ("S", .speedChallenge)]

def doorFind (key : Bytes) : Option Door :=
  (doorKeys.find? fun p => strcasecmp key p.1).map Prod.snd

-- The first character of a line, upper or lower case.
def starts (line : Bytes) (c : Char) : Bool := line.head?.any fun d => lower d = c.toNat.toUInt8

-- The values of a door are held in 64 bits.
def longLong (v : Int) : Int := v.bmod (2 ^ 64)

@[simp] theorem longLong_zero : longLong 0 = 0 := rfl

theorem longLong_small {v : Int} (hlow : -2 ^ 62 ≤ v) (hhigh : v ≤ 2 ^ 62) : longLong v = v :=
  Int.bmod_eq_of_le (by omega) (by omega)

section Doors

variable (e : Env) (c : Caller)

def value (i : Nat) : Int := c.doorCtx.values.getD i 0

def setValue (i : Nat) (v : Int) : Caller :=
  { c with doorCtx := { c.doorCtx with values := c.doorCtx.values.set i (longLong v) } }

def setRng (rng : UInt32) : Caller := { c with doorCtx := { c.doorCtx with rng := rng } }

def setState (state : Int) : Caller := { c with doorCtx := { c.doorCtx with state := state } }

def loadValue (i : Nat) (game key : String) (fallback : Int) : Caller :=
  let (c, v) := gameLoad e c game key fallback
  setValue c i v

def saveValue (game key : String) (i : Nat) : Caller := gameSave e c game key (value c i)

def card : Caller × Int :=
  let rng := c.doorCtx.rng * 1664525 + 1013904223
  (setRng c rng, 1 + ((rng >>> 16) % 10).toNat)

def openBlackjack : Caller :=
  let c := loadValue e c 0 "blackjack" "credits" 1000
  let (c, first) := card c
  let (c, second) := card c
  let c := setValue c 1 (first + second)
  let (c, dealer) := card c
  setState (setValue c 2 dealer) 1

-- A card is worth at least one, so the dealer stops after that many.
def dealerDraws : Nat → Caller → Caller
  | 0, c => c
  | left + 1, c =>
      if value c 2 < 17 then
        let (drawn, v) := card c
        dealerDraws left (setValue drawn 2 (value c 2 + v))
      else c

def settleHand : Caller :=
  if value c 2 > 21 ∨ value c 1 > value c 2 then setValue c 0 (value c 0 + 25)
  else if value c 1 < value c 2 then setValue c 0 (value c 0 - 25)
  else c

-- A door's input ends with whether it has returned to the menu.
def inputBlackjack (line : Bytes) : Caller × Bool :=
  if starts line 'q' then (c, true)
  else if starts line 'h' then
    let (drawn, v) := card c
    let c := setValue drawn 1 (value c 1 + v)
    if value c 1 > 21 then
      let c := setValue c 0 (value c 0 - 25)
      (openBlackjack e (saveValue e c "blackjack" "credits" 0), false)
    else (c, false)
  else if starts line 's' then
    let c := settleHand (dealerDraws (17 - value c 2).toNat c)
    (openBlackjack e (saveValue e c "blackjack" "credits" 0), false)
  else (c, false)

def hangmanWords : List String := ["CARRIER", "PACKET", "MODEM", "TERMINAL", "GALAXY", "SIGNAL"]

def drawHangman : Caller :=
  if c.doorCtx.word.all (· ∈ c.doorCtx.guessed) then
    let (c, wins) := gameLoad e c "hangman" "wins" 0
    setState (gameSave e c "hangman" "wins" (longLong (wins + 1))) 2
  else c

def openHangman : Caller :=
  let rng := c.doorCtx.rng * 1103515245 + 12345
  let word := ascii (hangmanWords.getD ((rng >>> 16) % 6).toNat "")
  let c := setValue (setRng c rng) 0 0
  drawHangman e
    { c with doorCtx := { c.doorCtx with word := word, guessed := [], state := 1 } }

def upper (ch : UInt8) : UInt8 := if 97 ≤ ch ∧ ch ≤ 122 then ch - 32 else ch

def guess (ch : UInt8) : Caller :=
  if 65 ≤ ch ∧ ch ≤ 90 ∧ ch ∉ c.doorCtx.guessed then
    let missed := ch ∉ c.doorCtx.word
    let c := { c with doorCtx := { c.doorCtx with guessed := c.doorCtx.guessed ++ [ch] } }
    if missed then setValue c 0 (value c 0 + 1) else c
  else c

def inputHangman (line : Bytes) : Caller × Bool :=
  if starts line 'q' then (c, true)
  else if c.doorCtx.state = 2 then (openHangman e c, false)
  else
    let c := guess c (upper (line.headD 0))
    if value c 0 ≥ 6 then (setState c 2, false) else (drawHangman e c, false)

def openSpaceTrader : Caller :=
  let c := loadValue e c 0 "space" "credits" 500
  let c := loadValue e c 1 "space" "cargo" 0
  loadValue e c 2 "space" "port" 1

def saveSpaceTrader : Caller :=
  let c := saveValue e c "space" "credits" 0
  let c := saveValue e c "space" "cargo" 1
  saveValue e c "space" "port" 2

def trade (line : Bytes) : Caller :=
  let price := 18 + (value c 2).tmod 17
  if starts line 'b' ∧ value c 1 < 20 ∧ value c 0 ≥ price then
    setValue (setValue c 0 (value c 0 - price)) 1 (value c 1 + 1)
  else if starts line 's' ∧ value c 1 > 0 then
    setValue (setValue c 0 (value c 0 + price)) 1 (value c 1 - 1)
  else if starts line 'j' then
    let rng := c.doorCtx.rng * 1664525 + 1013904223
    setValue (setRng c rng) 2 (1 + ((rng >>> 16) % 12).toNat)
  else c

def inputSpaceTrader (line : Bytes) : Caller × Bool :=
  if starts line 'q' then (saveSpaceTrader e c, true)
  else (saveSpaceTrader e (trade c line), false)

def openDungeon : Caller :=
  let c := loadValue e c 0 "dungeon" "level" 1
  let c := loadValue e c 1 "dungeon" "xp" 0
  let c := loadValue e c 2 "dungeon" "hp" 20
  loadValue e c 3 "dungeon" "gold" 0

def saveDungeon : Caller :=
  let c := saveValue e c "dungeon" "level" 0
  let c := saveValue e c "dungeon" "xp" 1
  let c := saveValue e c "dungeon" "hp" 2
  saveValue e c "dungeon" "gold" 3

def explore : Caller :=
  let rng := c.doorCtx.rng * 1103515245 + 12345
  let hit : Int := 1 + ((rng >>> 16) % 8).toNat
  let gain : Int := 4 + ((rng >>> 20) % 12).toNat
  let c := setValue (setRng c rng) 2 (value c 2 - hit)
  let c :=
    if value c 2 ≤ 0 then
      setValue (setValue c 2 (20 + value c 0 * 3)) 3 ((value c 3).tdiv 2)
    else setValue (setValue c 1 (value c 1 + gain)) 3 (value c 3 + gain.tdiv 2)
  if value c 1 ≥ longLong (value c 0 * 50) then setValue c 0 (value c 0 + 1) else c

def inputDungeon (line : Bytes) : Caller × Bool :=
  if starts line 'q' then (saveDungeon e c, true)
  else
    let c := if starts line 'r' then setValue c 2 (20 + value c 0 * 3) else c
    let c := if starts line 'e' then explore c else c
    (saveDungeon e c, false)

def openSpeedChallenge : Caller :=
  let (c, now) := readTime e c
  setState (setValue c 0 now) 1

-- Shows how long the caller took and returns.
def inputSpeedChallenge : Caller × Bool := ((readTime e c).1, true)

def Door.open (door : Door) : Caller :=
  match door with
  | .blackjack => openBlackjack e c
  | .hangman => openHangman e c
  | .spaceTrader => openSpaceTrader e c
  | .dungeon => openDungeon e c
  | .speedChallenge => openSpeedChallenge e c

def Door.input (door : Door) (line : Bytes) : Caller × Bool :=
  match door with
  | .blackjack => inputBlackjack e c line
  | .hangman => inputHangman e c line
  | .spaceTrader => inputSpaceTrader e c line
  | .dungeon => inputDungeon e c line
  | .speedChallenge => inputSpeedChallenge e c

def doorContext (rng : UInt32) : DoorContext :=
  { rng := rng, state := 0, values := List.replicate 8 0, word := [], guessed := [] }

def openDoors : Caller :=
  let (c, now) := readTime e c
  { c with doorCtx := doorContext (toUnsigned now ^^^ toUnsigned c.userId) }

end Doors

end Softmodem.Bbs
