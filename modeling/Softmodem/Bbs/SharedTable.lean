import Mathlib.Algebra.GroupWithZero.Nat
import Softmodem.Bbs.GameTable

namespace Softmodem.Bbs

open CString Transition Vouching

-- The numbers of the door a caller is in are in range, and within the room `m` leaves them.
structure Fit (m : Int) (s : Session) : Prop where
  size : s.doorCtx.values.length = 8
  inDoor : s.stage = .door → ∀ door ∈ s.door, Kept m door.slots s.toCaller

theorem Fit.grow {m m' : Int} {s : Session} (h : Fit m s) (hm : m ≤ m') : Fit m' s :=
  ⟨h.size, fun hstage door hdoor => (h.inDoor hstage door hdoor).grow hm⟩

abbrev Adds (m m' : Int) (s t : Session) : Prop :=
  Vouches Loads GoodEntry (fun s : Session => s.log) (Fit m s) s t (Fit m' t)

section Steps

variable (e : Env) {s t : Session} {m : Int}

theorem Away.adds (h : Away s t) : Adds m (m + 64) s t := by
  obtain ⟨new, hlog, hnew⟩ := h.aside.log
  have hhonest : Honest Loads GoodEntry (Fit m s) new :=
    honest_of_inputs fun x hx => .inr (goodEntry_aside (hnew x hx))
  refine ⟨new, hlog, hhonest, fun hs _ => ⟨?_, fun hdoor => absurd hdoor h.stage⟩⟩
  rw [h.aside.doorCtx]
  exact hs.size

theorem Lined.adds {e : Env} (h : Lined e s t) (hm : Bounded m) (hm' : Bounded (m + 64)) :
    Adds m (m + 64) s t := by
  cases h with
  | away h => exact h.adds
  | menu => exact .quiet rfl fun _ => ⟨rfl, fun hdoor => absurd hdoor (by simp)⟩
  | opened door =>
      have hkept (hs : Fit m s) : Kept m [] s.toCaller :=
        ⟨hs.size, fun _ hslot => absurd hslot List.not_mem_nil⟩
      refine (door.open_keeps e s.toCaller hm).plays.weaken hkept fun h => ⟨h.size, ?_⟩
      rintro - found hfound
      exact Option.some.inj hfound ▸ h.grow (by omega)
  | stays door line hstage hdoor _ =>
      have hkept (hs : Fit m s) : Kept m door.slots s.toCaller := hs.inDoor hstage door hdoor
      refine (door.input_keeps e s.toCaller hm hm' line).plays.weaken hkept fun h => ⟨h.size, ?_⟩
      rintro - found hfound
      exact Option.some.inj (hdoor.symm.trans hfound) ▸ h
  | returned door line hstage hdoor =>
      have hkept (hs : Fit m s) : Kept m door.slots s.toCaller := hs.inDoor hstage door hdoor
      exact (door.input_keeps e s.toCaller hm hm' line).plays.weaken hkept fun h =>
        ⟨h.size, fun hdoor => absurd hdoor (by simp)⟩
  | idle => exact .quiet rfl fun hs => hs.grow (by omega)

theorem Stepped.adds {e : Env} (h : Stepped e s t) (hm : Bounded m) (hm' : Bounded (m + 64)) :
    Adds m (m + 64) s t := by
  cases h with
  | lined h => exact (h.adds hm hm').bind (.quiet rfl fun ht => ⟨ht.size, ht.inDoor⟩)
  | away h => exact h.adds
  | buffered hcaller hstage hdoor _ =>
      refine .quiet (congrArg Caller.log hcaller) fun hs => Fit.grow (m := m) ?_ (by omega)
      refine ⟨by rw [hcaller]; exact hs.size, ?_⟩
      rw [hcaller, hstage, hdoor]
      exact hs.inDoor

-- How far the numbers of a session may have moved after so many events.
def drift (n : Nat) : Int := 2 ^ 56 + 64 * n

theorem drift_bounded {n : Nat} (h : n ≤ 2 ^ 50) : Bounded (drift n) := by
  unfold drift
  constructor <;> omega

-- What a session does for itself: its own entries are good while the rows it was given are.
def Vouched (m : Int) (s : Session) : Prop :=
  Honest Loads GoodEntry True s.log ∧ (Trusted Loads GoodEntry s.log → Fit m s)

theorem events_vouched (events : List Event) {n : Nat} (h : Vouched (drift n) s)
    (hfew : n + events.length ≤ 2 ^ 50) :
    Vouched (drift (n + events.length)) (run (step e) s events) := by
  induction events generalizing s n with
  | nil => exact h
  | cons event events ih =>
      rw [List.length_cons] at hfew ⊢
      have hnext : drift n + 64 = drift (n + 1) := by
        unfold drift
        omega
      have hstep := (step_stepped e s event).adds (drift_bounded (by omega))
        (hnext ▸ drift_bounded (by omega))
      rw [hnext] at hstep
      rw [run_cons, Nat.add_comm events.length, ← Nat.add_assoc]
      exact ih (hstep.honest h.1 h.2) (by omega)

-- The most events that a call may be.
def Call.steps : Call → Nat
  | .feed bytes => bytes.length + 1
  | _ => 1

theorem eventsOf_length (s : Session) (calls : List Call) :
    (eventsOf e s calls).length ≤ (calls.map Call.steps).sum := by
  induction calls generalizing s with
  | nil => exact Nat.le_refl 0
  | cons call calls ih =>
      have hcall : (call.events s).length ≤ call.steps := by
        cases call with
        | feed bytes =>
            simp only [Call.events, fed, Call.steps]
            split <;> simp
        | tick ms => exact Nat.le_refl 1
        | takePpp cap => exact Nat.le_refl 1
      have hrest := ih (called e s call)
      rw [eventsOf, List.length_append, List.map_cons, List.sum_cons]
      omega

theorem session_vouched (about : ConnectionMeta) {calls : List Call}
    (hfew : (calls.map Call.steps).sum ≤ 2 ^ 50) :
    Vouched (2 ^ 57) (run (called e) (create e about) calls) := by
  have hcreated : Vouched (drift 0) (create e about) :=
    ⟨trivial, fun _ => ⟨by simp [create, doorContext], fun hdoor => by simp [create] at hdoor⟩⟩
  have hlength := eventsOf_length e (create e about) calls
  obtain ⟨hhonest, hfit⟩ := events_vouched e (eventsOf e (create e about) calls) hcreated (by omega)
  rw [calls_eq_run]
  refine ⟨hhonest, fun htrusted => (hfit htrusted).grow ?_⟩
  unfold drift
  omega

theorem destroy_honest {s : Session} (h : Honest Loads GoodEntry True s.log) :
    Honest Loads GoodEntry True (destroy e s) := by
  rw [destroy]
  split
  · rw [ask_log]
    refine honest_append.mpr ⟨h, honest_of_inputs fun x hx => .inr (goodEntry_aside ?_)⟩
    rw [List.mem_singleton.mp hx]
    exact id
  · exact h

theorem log_subset_destroy (s : Session) : s.log ⊆ destroy e s := by
  rw [destroy]
  split
  · exact List.subset_append_left _ _
  · exact List.Subset.refl _

end Steps

-- The callers of one board, each with its own view of the database.
structure Board (ι : Type*) where
  env : ι → Env
  about : ι → ConnectionMeta
  calls : ι → List Call

abbrev Row : Type := Int × String × String × Int

def Row.Good (row : Row) : Prop := InRange row.2.1 row.2.2.1 row.2.2.2

section Shared

variable {ι : Type*}

def Board.session (b : Board ι) (i : ι) : Session :=
  run (called (b.env i)) (create (b.env i) (b.about i)) (b.calls i)

-- The statements of all sessions in one order, some of them still on and some destroyed.
def Board.Merges [DecidableEq ι] (b : Board ι) (merged : List (ι × Statement × Answer)) : Prop :=
  ∀ i, (merged.filter fun x => x.1 = i).map Prod.snd ∈
    [(b.session i).log, destroy (b.env i) (b.session i)]

def written (rows : List Row) (x : ι × Statement × Answer) : List Row :=
  match x.2.1 with
  | .insertGame user game key v => (user, game, key, v) :: rows
  | _ => rows

def given : Statement × Answer → Option Row
  | (.selectGame user game key, .row columns _) => some (user, game, key, columns.getD 0 0)
  | _ => none

def FromTable (rows : List Row) (x : ι × Statement × Answer) : Prop :=
  (given x.2).all (fun row => row ∈ rows ∧ Ample row.2.2.2) = true

instance (rows : List Row) (x : ι × Statement × Answer) : Decidable (FromTable rows x) :=
  inferInstanceAs (Decidable (_ = true))

-- A row that a select gives was in the table at first, or a session has written it since;
-- its number has not grown beyond what is ample.
def Serves (rows : List Row) (merged : List (ι × Statement × Answer)) : Prop :=
  Along written FromTable rows merged

theorem written_good {rows : List Row} {x : ι × Statement × Answer}
    (hrows : ∀ row ∈ rows, row.Good) (hx : GoodEntry x.2) : ∀ row ∈ written rows x, row.Good := by
  rw [written]
  split
  · next user game key v hq =>
    refine List.forall_mem_cons.mpr ⟨?_, hrows⟩
    obtain ⟨i, q, a⟩ := x
    cases hq
    exact hx
  · exact hrows

theorem goodEntry_of_fromTable {rows : List Row} {x : ι × Statement × Answer}
    (hrows : ∀ row ∈ rows, row.Good) (hx : FromTable rows x) (hload : Loads x.2) :
    GoodEntry x.2 := by
  obtain ⟨i, q, a⟩ := x
  obtain ⟨user, game, key, rfl⟩ := hload
  cases a with
  | row columns text =>
      obtain ⟨hmem, hample⟩ := of_decide_eq_true hx
      exact ⟨hrows _ hmem, hample⟩
  | _ => trivial

theorem game_values_stay_in_range [DecidableEq ι] {b : Board ι} {rows : List Row}
    {merged : List (ι × Statement × Answer)} (hrows : ∀ row ∈ rows, row.Good)
    (hmerged : b.Merges merged) (hserves : Serves rows merged)
    (hfew : ∀ i, ((b.calls i).map Call.steps).sum ≤ 2 ^ 50) :
    (∀ x ∈ merged, GoodEntry x.2) ∧ ∀ i, Fit (2 ^ 57) (b.session i) := by
  have hvouched (i : ι) : Vouched (2 ^ 57) (b.session i) := session_vouched _ _ (hfew i)
  have hgood : ∀ x ∈ merged, GoodEntry x.2 := by
    apply all_good
    · intro before x after hsplit hbefore hload
      have htable := (along_iff_split merged).mp hserves before x after hsplit
      have hwritten : Along written (fun _ y => GoodEntry y.2) rows before :=
        (along_iff_split before).mpr fun _ y _ hy => hbefore y (by simp [hy])
      refine goodEntry_of_fromTable ?_ htable hload
      exact along_invariant (P := fun rows => ∀ row ∈ rows, row.Good) (fun _ _ => written_good)
        before hrows hwritten
    · intro i
      rcases List.mem_pair.mp (hmerged i) with hlog | hdestroyed
      · rw [hlog]
        exact (hvouched i).1
      · rw [hdestroyed]
        exact destroy_honest _ (hvouched i).1
  refine ⟨hgood, fun i => (hvouched i).2 fun x hx _ => ?_⟩
  have hown : x ∈ (merged.filter fun x => x.1 = i).map Prod.snd := by
    rcases List.mem_pair.mp (hmerged i) with hlog | hdestroyed
    · rwa [hlog]
    · rw [hdestroyed]
      exact log_subset_destroy _ _ hx
  obtain ⟨y, hy, rfl⟩ := List.mem_map.mp hown
  exact hgood y (List.mem_of_mem_filter hy)

end Shared

-- One account, and the rows of its trade in space.
def tradePost (rows : List (String × Int)) : Env where
  opened := true
  answer log q :=
    match q with
    | .selectGame _ _ key => (rows.lookup key).elim .existed fun v => .row [v] none
    | .insertGame .. => .done 1
    | _ => oneAccount.answer log q
  time _ := 1
  inserts := oneAccount.inserts

-- The first caller buys cargo; the second, with the same account, finds it and sells it.
def twoTraders : Board Bool where
  env second :=
    tradePost (if second then [("credits", 481), ("cargo", 1), ("port", 1)] else [])
  about _ := quietLine
  calls second :=
    [.feed (ascii "BBS\rsysop\rkey\r"), .feed (ascii "D\r3\r"),
      .feed (ascii (if second then "S\r" else "B\r"))]

def tradeLog : List (Bool × Statement × Answer) :=
  (twoTraders.session false).log.map (false, ·) ++ (twoTraders.session true).log.map (true, ·)

theorem trades_stay_in_range :
    (∀ x ∈ tradeLog, GoodEntry x.2) ∧ ∀ i, Fit (2 ^ 57) (twoTraders.session i) :=
  game_values_stay_in_range (show ∀ row ∈ ([] : List Row), row.Good by simp)
    (fun i => by cases i <;> simp [tradeLog, List.filter_map, Function.comp_def])
    (show Along written FromTable [] tradeLog by decide)
    (fun i => by cases i <;> decide)

end Softmodem.Bbs
