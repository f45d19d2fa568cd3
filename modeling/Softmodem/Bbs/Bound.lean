import Softmodem.Bbs.Played

namespace Softmodem.Bbs

open CString

-- The user a statement is bound to, for those that name one.
def Statement.user : Statement → Option Int
  | .updateUser _ _ _ _ _ _ userId => some userId
  | .insertConnection userId _ _ _ => some userId
  | .selectConnections userId => some userId
  | .selectGame userId _ _ => some userId
  | .insertGame userId _ _ _ => some userId
  | _ => none

def Anonymous (log : Log) : Prop := ∀ x ∈ log, x.1.user = none

-- What a logged-in caller may become: the same user, who names nobody else.
structure Bound (c d : Caller) : Prop where
  userId : d.userId = c.userId
  log : ∃ new, d.log = c.log ++ new ∧ ∀ x ∈ new, ∀ user, x.1.user = some user → user = c.userId

namespace Bound

variable {b c d : Caller}

theorem of_eq (huser : d.userId = c.userId) (hlog : d.log = c.log) : Bound c d :=
  ⟨huser, [], by rw [hlog, List.append_nil], fun _ hx => absurd hx List.not_mem_nil⟩

theorem refl (c : Caller) : Bound c c := of_eq rfl rfl

theorem trans (h : Bound b c) (h' : Bound c d) : Bound b d := by
  obtain ⟨huser, new, hlog, hnew⟩ := h
  obtain ⟨huser', new', hlog', hnew'⟩ := h'
  refine ⟨huser'.trans huser, new ++ new', by rw [hlog', hlog, List.append_assoc], ?_⟩
  intro x hx user hx'
  rcases List.mem_append.mp hx with hold | hlater
  · exact hnew x hold user hx'
  · exact (hnew' x hlater user hx').trans huser

end Bound

section Database

variable (e : Env) (c : Caller)

theorem ask_bound {q : Statement} (h : ∀ user, q.user = some user → user = c.userId) :
    Bound c (ask e c q).1 := by
  refine ⟨rfl, [(q, (ask e c q).2)], rfl, ?_⟩
  intro x hx user hx'
  rw [List.mem_singleton.mp hx] at hx'
  exact h user hx'

theorem terminalSave_bound : Bound c (terminalSave e c) :=
  ask_bound e c fun _ h => (Option.some.inj h).symm

theorem recordConnection_bound : Bound c (recordConnection e c) := by
  rw [recordConnection]
  split
  · exact .refl c
  · have hasked : Bound c
        (ask e c (.insertConnection c.userId c.about (terminalType c.ansi) c.ansi)).1 :=
      ask_bound e c fun _ h => (Option.some.inj h).symm
    apply hasked.trans
    dsimp only
    split
    · exact .refl _
    · exact .of_eq rfl rfl

theorem connectionScreen_bound : Bound c (connectionScreen e c) := .of_eq rfl rfl

theorem history_bound : Bound c (history e c) :=
  ask_bound e c fun _ h => (Option.some.inj h).symm

end Database

section Doors

variable (e : Env) (c : Caller)

theorem DoorMove.bound {e : Env} {c d : Caller} (h : DoorMove e c d) : Bound c d := by
  cases h with
  | context ctx => exact .of_eq rfl rfl
  | time => exact .of_eq rfl rfl
  | load game key => exact ask_bound e c fun _ h => (Option.some.inj h).symm
  | save game key v => exact ask_bound e c fun _ h => (Option.some.inj h).symm

theorem Played.bound {e : Env} {c d : Caller} (h : Played e c d) : Bound c d :=
  h.invariant Bound.refl (fun _ _ _ => Bound.trans) fun _ _ => DoorMove.bound

theorem Door.open_bound (door : Door) : Bound c (door.open e c) := (door.open_played e c).bound

theorem Door.input_bound (door : Door) (line : Bytes) : Bound c (door.input e c line).1 :=
  (door.input_played e c line).bound

theorem openDoors_bound : Bound c (openDoors e c) := (openDoors_played e c).bound

end Doors

end Softmodem.Bbs
