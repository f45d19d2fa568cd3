import Softmodem.Bbs.GameTable

namespace Softmodem.Bbs

open CString Transition

-- A game of hangman: one of the words, letters tried once each, and never the Q that ends it.
structure Gallows (ctx : DoorContext) : Prop where
  size : ctx.values.length = 8
  word : ctx.word ∈ hangmanWords.map ascii
  once : ctx.guessed.Nodup
  letters : ∀ ch ∈ ctx.guessed, 65 ≤ ch ∧ ch ≤ 90 ∧ ch ≠ 81
  misses : ctx.values.getD 0 0 = (ctx.guessed.countP fun ch => ch ∉ ctx.word : Nat)

def Solved (ctx : DoorContext) : Prop := ∀ ch ∈ ctx.word, ch ∈ ctx.guessed

-- The game is on while its state is 1, and over while it is 2.
structure Hanging (ctx : DoorContext) : Prop extends Gallows ctx where
  playing : ctx.state = 1 → ctx.values.getD 0 0 < 6 ∧ ¬ Solved ctx
  ended : ctx.state ≠ 1 → ctx.state = 2 ∧ (ctx.values.getD 0 0 = 6 ∨ Solved ctx)
  few : ctx.values.getD 0 0 ≤ 6

theorem capitals_length {guessed : Bytes} (h : guessed.Nodup)
    (hletters : ∀ ch ∈ guessed, 65 ≤ ch ∧ ch ≤ 90 ∧ ch ≠ 81) : guessed.length ≤ 25 := by
  have hsub : guessed.map UInt8.toNat ⊆ (List.range' 65 26).erase 81 := by
    intro n hn
    obtain ⟨ch, hch, rfl⟩ := List.mem_map.mp hn
    obtain ⟨hlow, hhigh, hq⟩ := hletters ch hch
    have hne : ch.toNat ≠ 81 := fun heq => hq (UInt8.toNat_inj.mp heq)
    rw [List.mem_erase_of_ne hne, List.mem_range'_1]
    have := UInt8.le_iff_toNat_le.mp hlow
    have := UInt8.le_iff_toNat_le.mp hhigh
    simp at *
    omega
  have hnodup : (guessed.map UInt8.toNat).Nodup :=
    List.Pairwise.map UInt8.toNat (fun _ _ hne heq => hne (UInt8.toNat_inj.mp heq)) h
  simpa using hnodup.length_le_of_subset hsub

section Hangman

variable (e : Env) {c : Caller}

theorem drawHangman_doorCtx (c : Caller) :
    (drawHangman e c).doorCtx = c.doorCtx ∧ ¬ Solved c.doorCtx ∨
      (drawHangman e c).doorCtx = { c.doorCtx with state := 2 } ∧ Solved c.doorCtx := by
  rw [drawHangman]
  split
  · next hsolved =>
    have hctx := gameLoad_doorCtx e c "hangman" "wins" 0
    generalize gameLoad e c "hangman" "wins" 0 = loaded at hctx ⊢
    obtain ⟨loaded, wins⟩ := loaded
    refine .inr ⟨?_, by simpa [Solved] using hsolved⟩
    rw [← hctx]
    rfl
  · next hopen => exact .inl ⟨rfl, by simpa [Solved] using hopen⟩

-- The game after a look at whether the word is solved.
theorem drawHangman_hanging (h : Gallows c.doorCtx) (hstate : c.doorCtx.state = 1)
    (hfew : value c 0 < 6) : Hanging (drawHangman e c).doorCtx := by
  rcases drawHangman_doorCtx e c with ⟨hctx, hopen⟩ | ⟨hctx, hsolved⟩
  · rw [hctx]
    exact { h with
      playing := fun _ => ⟨hfew, hopen⟩
      ended := fun hover => absurd hstate hover
      few := Int.le_of_lt hfew }
  · rw [hctx]
    exact {
      size := h.size
      word := h.word
      once := h.once
      letters := h.letters
      misses := h.misses
      playing := fun hone => absurd hone (by simp)
      ended := fun _ => ⟨rfl, .inr hsolved⟩
      few := Int.le_of_lt hfew }

theorem openHangman_hanging (hsize : c.doorCtx.values.length = 8) :
    Hanging (openHangman e c).doorCtx := by
  have hopened (d : Caller) (word : Bytes) (hword : word ∈ hangmanWords.map ascii)
      (hsize : d.doorCtx.values.length = 8) (hzero : d.doorCtx.values.getD 0 0 = 0) :
      Hanging (drawHangman e
        { d with doorCtx := { d.doorCtx with word, guessed := [], state := 1 } }).doorCtx := by
    refine drawHangman_hanging e ⟨hsize, hword, .nil, by simp, by simpa using hzero⟩ rfl ?_
    rw [value, hzero]
    decide
  have hword (rng : UInt32) :
      ascii (hangmanWords.getD ((rng >>> 16) % 6).toNat "") ∈ hangmanWords.map ascii := by
    have hlt : ((rng >>> 16) % 6).toNat < 6 := toNat_mod_lt (rng >>> 16) (by decide)
    generalize ((rng >>> 16) % 6).toNat = i at hlt ⊢
    refine List.mem_map_of_mem ?_
    rw [List.getD_eq_getElem?_getD, List.getElem?_eq_getElem (show i < hangmanWords.length from hlt)]
    exact List.getElem_mem _
  have hcleared (rng : UInt32) :
      (setValue (setRng c rng) 0 0).doorCtx.values.length = 8 ∧
        (setValue (setRng c rng) 0 0).doorCtx.values.getD 0 0 = 0 := by
    simp [setValue, setRng, hsize]
  rw [openHangman]
  exact hopened _ _ (hword _) (hcleared _).1 (hcleared _).2

theorem guess_gallows (h : Gallows c.doorCtx) (ch : UInt8) (hch : ch ≠ 81) :
    Gallows (guess c ch).doorCtx ∧ (guess c ch).doorCtx.state = c.doorCtx.state ∧
      value (guess c ch) 0 ≤ value c 0 + 1 := by
  rw [guess]
  split
  · next hnew =>
    obtain ⟨hlow, hhigh, hfresh⟩ := hnew
    have honce : (c.doorCtx.guessed ++ [ch]).Nodup :=
      List.nodup_append.mpr ⟨h.once, by simp, fun d hd last hlast heq =>
        hfresh (List.mem_singleton.mp hlast ▸ heq ▸ hd)⟩
    have hletters : ∀ d ∈ c.doorCtx.guessed ++ [ch], 65 ≤ d ∧ d ≤ 90 ∧ d ≠ 81 := by
      intro d hd
      rcases List.mem_append.mp hd with hold | hlast
      · exact h.letters d hold
      · exact List.mem_singleton.mp hlast ▸ ⟨hlow, hhigh, hch⟩
    dsimp only
    split
    · next hmissed =>
      have hmisses := h.misses
      have hfew := List.countP_le_length (p := fun ch => ch ∉ c.doorCtx.word) (l := c.doorCtx.guessed)
      have hletters' := capitals_length h.once h.letters
      have hnext : longLong (value c 0 + 1) = value c 0 + 1 :=
        longLong_small (by rw [value]; omega) (by rw [value]; omega)
      refine ⟨⟨by simp [setValue, h.size], h.word, honce, hletters, ?_⟩, rfl, ?_⟩
      · simp [setValue, value, h.size, hmissed, List.countP_append] at hmisses hnext ⊢
        omega
      · simp [setValue, value, h.size] at hnext ⊢
        omega
    · next hhit =>
      refine ⟨⟨h.size, h.word, honce, hletters, ?_⟩, rfl, ?_⟩
      · rw [List.countP_append, h.misses]
        simp [hhit]
      · exact Int.le_add_one (Int.le_refl _)
  · exact ⟨h, rfl, by omega⟩

theorem upper_ne_Q {line : Bytes} (h : ¬ starts line 'q' = true) : upper (line.headD 0) ≠ 81 := by
  cases line with
  | nil => decide
  | cons ch rest =>
      intro hq
      have hch : ch = 81 ∨ ch = 113 := by
        rw [List.headD_cons, upper] at hq
        split at hq
        · exact .inr (by rw [← UInt8.sub_add_cancel ch 32, hq]; rfl)
        · exact .inl hq
      rcases hch with rfl | rfl
      · exact h rfl
      · exact h rfl

theorem inputHangman_hanging (h : Hanging c.doorCtx) (line : Bytes) :
    (inputHangman e c line).2 = true ∨ Hanging (inputHangman e c line).1.doorCtx := by
  rw [inputHangman]
  split
  · exact .inl rfl
  · next hplays =>
    refine .inr ?_
    split
    · exact openHangman_hanging e h.size
    · next hgoing =>
      have hone : c.doorCtx.state = 1 := by
        by_contra hother
        exact hgoing (h.ended hother).1
      obtain ⟨hgallows, hstate, hone'⟩ :=
        guess_gallows h.toGallows (upper (line.headD 0)) (upper_ne_Q hplays)
      generalize guess c (upper (line.headD 0)) = d at *
      dsimp only
      split
      · next hsix =>
        have hfew : value c 0 < 6 := (h.playing hone).1
        have hsix' : value d 0 = 6 := by omega
        exact {
          size := hgallows.size
          word := hgallows.word
          once := hgallows.once
          letters := hgallows.letters
          misses := hgallows.misses
          playing := fun hone => absurd hone (by simp [setState])
          ended := fun _ => ⟨rfl, .inl hsix'⟩
          few := Int.le_of_eq hsix' }
      · next hfew => exact drawHangman_hanging e hgallows (hstate.trans hone) (by omega)

end Hangman

-- No buffer of a session is ever written past its end; the text of a door is 128 long.
structure Roomy (s : Session) : Prop where
  fits : s.Fits
  handle : s.handle.length ≤ 47
  values : s.doorCtx.values.length = 8
  hangman : s.stage = .door → s.door = some .hangman → Hanging s.doorCtx

section Steps

variable {e : Env} {s t : Session}

theorem played_handle {c d : Caller} (h : Played e c d) : d.handle = c.handle := by
  refine h.invariant (R := fun c d => d.handle = c.handle) (fun _ => rfl)
    (fun _ _ _ hbc hcd => hcd.trans hbc) fun c d hmove => ?_
  cases hmove with
  | context => rfl
  | time => rfl
  | load => rfl
  | save => rfl

theorem Away.roomy (h : Away s t) (hs : Roomy s) : Roomy t :=
  ⟨h.fits hs.fits, h.aside.handle hs.handle, by rw [h.aside.doorCtx]; exact hs.values,
    fun hdoor => absurd hdoor h.stage⟩

theorem Lined.roomy (h : Lined e s t) (hs : Roomy s) : Roomy t := by
  cases h with
  | away h => exact h.roomy hs
  | menu => exact ⟨hs.fits, hs.handle, rfl, fun hdoor => absurd hdoor (by simp)⟩
  | opened door =>
      have hhandle := played_handle (door.open_played e s.toCaller)
      have hsize := (door.open_keeps e s.toCaller bounded_first).size
      refine ⟨hs.fits, by rw [hhandle]; exact hs.handle, hsize.trans hs.values, fun _ hdoor => ?_⟩
      cases hdoor
      exact openHangman_hanging e hs.values
  | stays door line hstage hdoor hplays =>
      have hhandle := played_handle (door.input_played e s.toCaller line)
      have hsize := (door.input_keeps e s.toCaller bounded_first bounded_second line).size
      refine ⟨hs.fits, by rw [hhandle]; exact hs.handle, hsize.trans hs.values, fun _ hman => ?_⟩
      obtain rfl : door = .hangman := Option.some.inj (hdoor.symm.trans hman)
      have hover := inputHangman_hanging e (hs.hangman hstage hman) line
      exact hover.resolve_left (Bool.eq_false_iff.mp hplays)
  | returned door line hstage hdoor =>
      have hhandle := played_handle (door.input_played e s.toCaller line)
      have hsize := (door.input_keeps e s.toCaller bounded_first bounded_second line).size
      exact ⟨hs.fits, by rw [hhandle]; exact hs.handle, hsize.trans hs.values,
        fun hin => absurd hin (by simp)⟩
  | idle => exact hs

theorem Stepped.roomy (h : Stepped e s t) (hs : Roomy s) : Roomy t := by
  cases h with
  | lined h =>
      have ht := h.roomy hs
      exact { ht with fits := { ht.fits with line_le := Nat.zero_le _ } }
  | away h => exact h.roomy hs
  | buffered hcaller hstage hdoor hfits =>
      refine ⟨hfits hs.fits, by rw [hcaller]; exact hs.handle, by rw [hcaller]; exact hs.values, ?_⟩
      rw [hcaller, hstage, hdoor]
      exact hs.hangman

end Steps

theorem create_roomy (e : Env) (about : ConnectionMeta) : Roomy (create e about) where
  fits := by constructor <;> simp [create]
  handle := by simp [create]
  values := rfl
  hangman hdoor := by simp [create] at hdoor

-- The word stands at the start of the text of a door, and the letters tried in its second half.
structure Safe (s : Session) : Prop extends Roomy s where
  text : s.stage = .door → s.door = some .hangman →
    s.doorCtx.word.length < 64 ∧ 64 + s.doorCtx.guessed.length < 127

theorem Hanging.text {ctx : DoorContext} (h : Hanging ctx) :
    ctx.word.length < 64 ∧ 64 + ctx.guessed.length < 127 := by
  have hword : ∀ word ∈ hangmanWords.map ascii, word.length < 64 := by decide
  have hletters := capitals_length h.once h.letters
  exact ⟨hword _ h.word, by omega⟩

theorem buffers_never_overflow (e : Env) (about : ConnectionMeta) (calls : List Call) :
    Safe (run (called e) (create e about) calls) := by
  have hroomy : Roomy (run (called e) (create e about) calls) := by
    rw [calls_eq_run]
    exact run_invariant (fun s event => (step_stepped e s event).roomy) _ (create_roomy e about)
  exact { hroomy with text := fun hstage hdoor => (hroomy.hangman hstage hdoor).text }

end Softmodem.Bbs
