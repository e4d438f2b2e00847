import Sentinel.Pam.Helper

/-!
# Verdicts cut by the read

Crate `pam-sentinel`, `crates/pam-sentinel/src/helper.rs:206-237`. One read of up to 16 bytes takes
a first part of what the helper wrote, and the verdict is parsed from that part alone. A read that
ends inside the first line leaves a line of its own: it says no more than the complete one unless
the cut is inside the word that decides, or the rest of the line is no text.
-/

namespace Sentinel.Pam.Helper

open Sentinel.Base Sentinel.Shared

/-- The complete first line of what was written: the bytes up to the first newline or carriage
return. -/
def firstLineBytes (w : Bytes) : Bytes := w.takeWhile (fun b ↦ b != 10 && b != 13)

/-- The complete first line is text that parses as a verdict of some kind. -/
def LineParses (w : Bytes) (kind : Verdict → Prop) : Prop :=
  ∃ line v, fromUtf8 (firstLineBytes w) = some line ∧ Verdict.fromStr line = some v ∧ kind v

/-- A wait that ends with a verdict says Allow only for a line that does, and remembers only for a
line that does. -/
def FailSafe (w : Bytes) (waited : Except HelperError Verdict) : Prop :=
  ∀ v, waited = .ok v →
    (v.outcome = .allow → LineParses w fun v' ↦ v'.outcome = .allow) ∧
      (v.remember = true → LineParses w fun v' ↦ v'.remember = true)

/-! ### Verdicts by their tokens -/

/-- The token of an Allow. -/
def allowToken : Str := "ALLOW".toList

/-- The tokens a verdict starts with. -/
def outcomeTokens : List Str := [allowToken, "DENY".toList, "TIMEOUT".toList]

/-- The tokens of an Allow. -/
def AllowTokens (ts : List Str) : Prop := ∃ rest, ts = allowToken :: rest

/-- The tokens of a verdict that remembers. -/
def RememberTokens (ts : List Str) : Prop :=
  ∃ outcome rest, ts = outcome :: rest ∧ outcome ∈ outcomeTokens ∧ Verdict.rememberToken ∈ rest

/-- A token is trimmed. -/
theorem trim_token {t : Str} (h : IsToken t) : trim t = t := by
  apply trim_eq_self
  · intro c hc
    exact h.2 c (List.mem_of_mem_head? hc)
  · intro c hc
    exact h.2 c (List.mem_of_getLast? hc)

/-- An outcome is read from its token only. -/
theorem outcome_fromStr_token {t : Str} (h : IsToken t) :
    (Outcome.fromStr t = some .allow ↔ t = allowToken) ∧
      ((Outcome.fromStr t).isSome = true ↔ t ∈ outcomeTokens) := by
  unfold Outcome.fromStr outcomeTokens allowToken
  rw [trim_token h]
  by_cases hallow : t = "ALLOW".toList
  · simp [hallow]
  · by_cases hdeny : t = "DENY".toList
    · simp [hdeny]
    · by_cases htimeout : t = "TIMEOUT".toList
      · simp [htimeout]
      · rw [if_neg hallow, if_neg hdeny, if_neg htimeout]
        simp only [reduceCtorEq, hallow, Option.isSome_none, Bool.false_eq_true, List.mem_cons,
          hdeny, htimeout, List.not_mem_nil, or_self, and_self]

/-- A verdict that parses has a first token, and only what follows it remembers. -/
theorem verdict_fromStr_eq_some_iff (s : Str) (v : Verdict) :
    Verdict.fromStr s = some v ↔
      ∃ t rest, splitWhitespace s = t :: rest ∧ Outcome.fromStr t = some v.outcome ∧
        v.remember = rest.contains Verdict.rememberToken := by
  obtain ⟨outcome, remember⟩ := v
  unfold Verdict.fromStr
  cases hts : splitWhitespace s with
  | nil =>
    have hnil : Outcome.fromStr [] = none := by decide
    simp [hnil]
  | cons t rest =>
    simp only [List.headD_cons, List.tail_cons, Option.map_eq_some_iff, Verdict.mk.injEq,
      List.cons.injEq]
    constructor
    · rintro ⟨o, ho, rfl, rfl⟩
      exact ⟨t, rest, ⟨rfl, rfl⟩, ho, rfl⟩
    · rintro ⟨t', rest', ⟨rfl, rfl⟩, ho, rfl⟩
      exact ⟨outcome, ho, rfl, rfl⟩

/-- A text parses as an Allow by its tokens. -/
theorem allow_iff (s : Str) :
    (∃ v, Verdict.fromStr s = some v ∧ v.outcome = .allow) ↔ AllowTokens (splitWhitespace s) := by
  constructor
  · rintro ⟨v, hv, ho⟩
    obtain ⟨t, rest, hts, hfrom, -⟩ := (verdict_fromStr_eq_some_iff s v).mp hv
    have ht : IsToken t := isToken_of_mem_splitWhitespace (s := s) (by simp [hts])
    rw [ho, (outcome_fromStr_token ht).1] at hfrom
    exact ⟨rest, by rw [hts, hfrom]⟩
  · rintro ⟨rest, hts⟩
    have hallow : Outcome.fromStr allowToken = some .allow := by decide
    refine ⟨⟨.allow, rest.contains Verdict.rememberToken⟩, ?_, rfl⟩
    apply (verdict_fromStr_eq_some_iff s _).mpr
    exact ⟨allowToken, rest, hts, hallow, rfl⟩

/-- A text parses as a verdict that remembers by its tokens. -/
theorem remember_iff (s : Str) :
    (∃ v, Verdict.fromStr s = some v ∧ v.remember = true) ↔
      RememberTokens (splitWhitespace s) := by
  constructor
  · rintro ⟨v, hv, hr⟩
    obtain ⟨t, rest, hts, hfrom, hrem⟩ := (verdict_fromStr_eq_some_iff s v).mp hv
    have ht : IsToken t := isToken_of_mem_splitWhitespace (s := s) (by simp [hts])
    refine ⟨t, rest, hts, (outcome_fromStr_token ht).2.mp (by simp [hfrom]), ?_⟩
    rw [hr] at hrem
    exact List.contains_iff_mem.mp hrem.symm
  · rintro ⟨t, rest, hts, hmem, hrem⟩
    have ht : IsToken t := isToken_of_mem_splitWhitespace (s := s) (by simp [hts])
    obtain ⟨o, ho⟩ := Option.isSome_iff_exists.mp ((outcome_fromStr_token ht).2.mpr hmem)
    refine ⟨⟨o, true⟩, ?_, rfl⟩
    apply (verdict_fromStr_eq_some_iff s _).mpr
    exact ⟨t, rest, hts, ho, (List.contains_iff_mem.mpr hrem).symm⟩

/-! ### The line and the part of it that was read -/

/-- The low bytes are the characters of their numbers. -/
theorem ofNat_eq_iff {b : UInt8} {n : Nat} (hb : b.toNat < 0x80) (hn : n < 0x80) :
    Char.ofNat b.toNat = Char.ofNat n ↔ b.toNat = n := by
  constructor
  · intro h
    rw [← toNat_charOfNat (n := b.toNat) (by omega), h, toNat_charOfNat (by omega)]
  · intro h
    rw [h]

/-- A line break is one byte. -/
theorem fromUtf8_firstLineBytes {bs : Bytes} {s : Str} (h : fromUtf8 bs = some s) :
    fromUtf8 (firstLineBytes bs) = some (firstLine s) := by
  apply fromUtf8_takeWhile _ _ _ h
  · intro b hb
    have hnl : (b = 10) ↔ Char.ofNat b.toNat = '\n' := by
      rw [← UInt8.toNat_inj]
      exact (ofNat_eq_iff hb (by decide)).symm
    have hcr : (b = 13) ↔ Char.ofNat b.toNat = '\r' := by
      rw [← UInt8.toNat_inj]
      exact (ofNat_eq_iff hb (by decide)).symm
    simp only [bne, beq_eq_decide, decide_eq_decide.mpr hnl, decide_eq_decide.mpr hcr]
  · intro b hb
    have hnl : b ≠ 10 := by
      rintro rfl
      exact absurd hb (by decide)
    have hcr : b ≠ 13 := by
      rintro rfl
      exact absurd hb (by decide)
    simp [hnl, hcr]
  · intro c hc
    have hnl : c ≠ '\n' := by
      rintro rfl
      exact absurd hc (by decide)
    have hcr : c ≠ '\r' := by
      rintro rfl
      exact absurd hc (by decide)
    simp [hnl, hcr]

/-- What is read of the first line. -/
theorem firstLineBytes_take (w : Bytes) (k : Nat) :
    firstLineBytes (w.take k) = (firstLineBytes w).take k :=
  List.take_takeWhile.symm

/-- A read of the whole line is parsed as the line. -/
theorem fromUtf8_line {w : Bytes} {k : Nat} {s : Str} (hk : (firstLineBytes w).length ≤ k)
    (h : fromUtf8 (w.take k) = some s) : fromUtf8 (firstLineBytes w) = some (firstLine s) := by
  have hline := fromUtf8_firstLineBytes h
  rwa [firstLineBytes_take, List.take_of_length_le hk] at hline

/-- A read that ends inside the line has no line break, and the line goes on behind it. -/
theorem fromUtf8_cut {w : Bytes} {k : Nat} {s : Str} (hk : k < (firstLineBytes w).length)
    (h : fromUtf8 (w.take k) = some s) :
    firstLine s = s ∧
      fromUtf8 (firstLineBytes w) = (fromUtf8 ((firstLineBytes w).drop k)).map (s ++ ·) := by
  have hread : w.take k = (firstLineBytes w).take k := by
    obtain ⟨behind, hw⟩ := List.takeWhile_prefix (p := fun b : UInt8 ↦ b != 10 && b != 13) (l := w)
    calc w.take k = (firstLineBytes w ++ behind).take k := congrArg (List.take k) hw.symm
      _ = (firstLineBytes w).take k := List.take_append_of_le_length (by omega)
  have hline := fromUtf8_firstLineBytes h
  rw [firstLineBytes_take, ← hread, h] at hline
  refine ⟨(Option.some.inj hline).symm, ?_⟩
  rw [← fromUtf8_append h, hread, List.take_append_drop]

/-- Where a line that is cut says more than the complete one: the rest of the line is no text, or
the cut is inside the word that decides, a first `ALLOW` or the only `REMEMBER`. -/
def Misread (w : Bytes) (k : Nat) : Prop :=
  k < (firstLineBytes w).length ∧
    ∃ s, fromUtf8 (w.take k) = some s ∧
      match fromUtf8 ((firstLineBytes w).drop k) with
      | none => AllowTokens (splitWhitespace s) ∨ RememberTokens (splitWhitespace s)
      | some rest =>
        CutsWord s rest ∧
          (splitWhitespace s = [allowToken] ∨
            ∃ outcome between, splitWhitespace s =
                outcome :: (between ++ [Verdict.rememberToken]) ∧ outcome ∈ outcomeTokens ∧
              Verdict.rememberToken ∉ between ∧
                Verdict.rememberToken ∉ (splitWhitespace rest).tail)

section Cut

variable {s rest : Str}

/-- A cut between words leaves an Allow and a verdict that remembers as they are. -/
theorem tokens_append {ts us : List Str} :
    (AllowTokens ts → AllowTokens (ts ++ us)) ∧
      (RememberTokens ts → RememberTokens (ts ++ us)) := by
  constructor
  · rintro ⟨more, rfl⟩
    exact ⟨more ++ us, rfl⟩
  · rintro ⟨outcome, more, rfl, ho, hr⟩
    exact ⟨outcome, more ++ us, rfl, ho, List.mem_append_left us hr⟩

/-- A cut inside a word makes up an Allow exactly when that word is all there is. -/
theorem allow_lost_iff (hcut : CutsWord s rest) (hs : AllowTokens (splitWhitespace s)) :
    ¬ AllowTokens (splitWhitespace (s ++ rest)) ↔ splitWhitespace s = [allowToken] := by
  obtain ⟨ts, x, y, ys, hts, hy, happ⟩ := splitWhitespace_append_of_cutsWord hcut
  have hne : y ≠ [] := (isToken_of_mem_splitWhitespace (s := rest) (by simp [hy])).1
  obtain ⟨more, hmore⟩ := hs
  rw [happ, hmore]
  rw [hts] at hmore
  cases ts with
  | nil =>
    cases hmore
    simp [AllowTokens, hne]
  | cons t ts =>
    cases hmore
    simp [AllowTokens]

/-- A cut inside a word makes up the marker exactly when that word is the only one. -/
theorem remember_lost_iff (hcut : CutsWord s rest) (hs : RememberTokens (splitWhitespace s)) :
    ¬ RememberTokens (splitWhitespace (s ++ rest)) ↔
      ∃ outcome between,
        splitWhitespace s = outcome :: (between ++ [Verdict.rememberToken]) ∧
          outcome ∈ outcomeTokens ∧ Verdict.rememberToken ∉ between ∧
          Verdict.rememberToken ∉ (splitWhitespace rest).tail := by
  obtain ⟨ts, x, y, ys, hts, hy, happ⟩ := splitWhitespace_append_of_cutsWord hcut
  have hne : y ≠ [] := (isToken_of_mem_splitWhitespace (s := rest) (by simp [hy])).1
  obtain ⟨outcome, more, hmore, ho, hr⟩ := hs
  rw [happ, hmore, hy, List.tail_cons]
  rw [hts] at hmore
  cases ts with
  | nil =>
    cases hmore
    cases hr
  | cons t between =>
    cases hmore
    by_cases hb : Verdict.rememberToken ∈ between
    · constructor
      · intro hlost
        refine absurd ⟨outcome, between ++ (x ++ y) :: ys, rfl, ho, ?_⟩ hlost
        exact List.mem_append_left _ hb
      · rintro ⟨o, between', he, -, hb', -⟩
        obtain ⟨-, he⟩ := List.cons.inj he
        rw [(List.append_inj' he rfl).1] at hb
        exact absurd hb hb'
    · -- The marker is the cut word, which is longer in the line.
      have hx : Verdict.rememberToken = x := by
        rcases List.mem_append.mp hr with h | h
        · exact absurd h hb
        · exact List.mem_singleton.mp h
      have hxy : Verdict.rememberToken ≠ x ++ y := by
        rw [hx]
        intro he
        exact hne (List.append_right_eq_self.mp he.symm)
      constructor
      · intro hlost
        refine ⟨outcome, between, by rw [hx]; rfl, ho, hb, ?_⟩
        intro hys
        refine hlost ⟨outcome, between ++ (x ++ y) :: ys, rfl, ho, ?_⟩
        exact List.mem_append_right _ (List.mem_cons_of_mem _ hys)
      · rintro ⟨-, -, -, -, -, hys⟩ ⟨o, more, he, -, hmem⟩
        obtain ⟨-, rfl⟩ := List.cons.inj he
        rcases List.mem_append.mp hmem with h | h
        · exact hb h
        · rcases List.mem_cons.mp h with h | h
          · exact hxy h
          · exact hys h

end Cut

/-! ### The parent -/

/-- What the parent reads as an Allow, and what as a verdict that remembers. -/
theorem parseVerdict_iff (bs : Bytes) :
    ((parseVerdict bs).outcome = .allow ↔
      ∃ s, fromUtf8 bs = some s ∧ AllowTokens (splitWhitespace (firstLine s))) ∧
    ((parseVerdict bs).remember = true ↔
      ∃ s, fromUtf8 bs = some s ∧ RememberTokens (splitWhitespace (firstLine s))) := by
  unfold parseVerdict
  cases hbs : fromUtf8 bs with
  | none =>
    have hnone : Verdict.fromStr (firstLine []) = none := by decide
    rw [Option.getD_none, hnone]
    simp
  | some s =>
    simp only [Option.getD_some, Option.some.injEq, exists_eq_left']
    rw [← allow_iff, ← remember_iff]
    cases Verdict.fromStr (firstLine s) with
    | none => simp
    | some v => simp

/-- The line says so by its tokens. -/
theorem lineParses_iff (w : Bytes) :
    (LineParses w (fun v ↦ v.outcome = .allow) ↔
      ∃ line, fromUtf8 (firstLineBytes w) = some line ∧ AllowTokens (splitWhitespace line)) ∧
    (LineParses w (fun v ↦ v.remember = true) ↔
      ∃ line, fromUtf8 (firstLineBytes w) = some line ∧ RememberTokens (splitWhitespace line)) := by
  constructor
  · constructor
    · rintro ⟨line, v, hline, hv, ho⟩
      exact ⟨line, hline, (allow_iff line).mp ⟨v, hv, ho⟩⟩
    · rintro ⟨line, hline, hts⟩
      obtain ⟨v, hv, ho⟩ := (allow_iff line).mpr hts
      exact ⟨line, v, hline, hv, ho⟩
  · constructor
    · rintro ⟨line, v, hline, hv, hr⟩
      exact ⟨line, hline, (remember_iff line).mp ⟨v, hv, hr⟩⟩
    · rintro ⟨line, hline, hts⟩
      obtain ⟨v, hv, hr⟩ := (remember_iff line).mpr hts
      exact ⟨line, v, hline, hv, hr⟩

/-- What is read of the line says no more than the line exactly when it is not misread. -/
theorem says_iff (w : Bytes) (k : Nat) :
    (((∃ s, fromUtf8 (w.take k) = some s ∧ AllowTokens (splitWhitespace (firstLine s))) →
        ∃ line, fromUtf8 (firstLineBytes w) = some line ∧ AllowTokens (splitWhitespace line)) ∧
      ((∃ s, fromUtf8 (w.take k) = some s ∧ RememberTokens (splitWhitespace (firstLine s))) →
        ∃ line, fromUtf8 (firstLineBytes w) = some line ∧
          RememberTokens (splitWhitespace line))) ↔
      ¬ Misread w k := by
  by_cases hk : k < (firstLineBytes w).length
  · cases hs : fromUtf8 (w.take k) with
    | none => simp [Misread, hs]
    | some s =>
      obtain ⟨hfirst, hline⟩ := fromUtf8_cut hk hs
      rw [hline]
      cases hrest : fromUtf8 ((firstLineBytes w).drop k) with
      | none => simp [Misread, hk, hs, hrest, hfirst]
      | some rest =>
        simp only [Misread, hk, hs, hrest, hfirst, Option.some.injEq, exists_eq_left', true_and,
          Option.map_some]
        by_cases hcut : CutsWord s rest
        · simp only [hcut, true_and, not_or]
          constructor
          · rintro ⟨hallow, hrem⟩
            constructor
            · intro hts
              have hs' : AllowTokens (splitWhitespace s) := ⟨[], hts⟩
              exact (allow_lost_iff hcut hs').mpr hts (hallow hs')
            · rintro ⟨outcome, between, hts, ho, hb, hr⟩
              have hs' : RememberTokens (splitWhitespace s) :=
                ⟨outcome, between ++ [Verdict.rememberToken], hts, ho, by simp⟩
              exact (remember_lost_iff hcut hs').mpr ⟨outcome, between, hts, ho, hb, hr⟩ (hrem hs')
          · rintro ⟨hallow, hrem⟩
            constructor
            · intro hs'
              by_contra hlost
              exact hallow ((allow_lost_iff hcut hs').mp hlost)
            · intro hs'
              by_contra hlost
              exact hrem ((remember_lost_iff hcut hs').mp hlost)
        · rw [splitWhitespace_append_of_not_cutsWord hcut]
          simp only [hcut, false_and, not_false_eq_true, iff_true]
          exact tokens_append
  · have hmis : ¬ Misread w k := fun h ↦ hk h.1
    simp only [hmis, not_false_eq_true, iff_true]
    constructor
    · rintro ⟨s, hs, hts⟩
      exact ⟨firstLine s, fromUtf8_line (by omega) hs, hts⟩
    · rintro ⟨s, hs, hts⟩
      exact ⟨firstLine s, fromUtf8_line (by omega) hs, hts⟩

/-- Cutting what the helper wrote is fail-safe exactly when the line is not misread. -/
theorem truncated_safe_iff {w : Bytes} {k n : Nat} {io : HelperIo} {req : HelperRequest}
    (hpos : 1 ≤ k) (hbuf : k ≤ 16) (hlen : k ≤ w.length)
    (hpoll : io.poll (parentPollTimeout req.cfg.timeout) = some n) (hn : n ≠ 0)
    (hread : io.read = .bytes (w.take k)) :
    FailSafe w (parentWait io req) ↔ ¬ Misread w k := by
  have hwait : parentWait io req = .ok (parseVerdict (w.take k)) := by
    have htake : (w.take k).take 16 = w.take k := by
      rw [List.take_take, Nat.min_eq_right hbuf]
    have hne : w.take k ≠ [] := by
      intro h
      have := congrArg List.length h
      rw [List.length_take, List.length_nil] at this
      omega
    unfold parentWait
    rw [hpoll]
    dsimp only
    rw [if_neg hn, hread]
    dsimp only
    rw [htake, if_neg hne]
  rw [← says_iff, ← (lineParses_iff w).1, ← (lineParses_iff w).2, ← (parseVerdict_iff _).1,
    ← (parseVerdict_iff _).2, FailSafe, hwait]
  simp only [Except.ok.injEq, forall_eq']

/-- A request for `sudo id`. -/
def sudoRequest : HelperRequest :=
  helperRequest (Document.forService {} "sudo".toList) "sudo".toList "root".toList
    { name := "id".toList, exe := "/usr/bin/id".toList, cmdline := "id".toList, cwd := [],
      rememberCommand := none, policyExe := none } 8 1000 0

/-- A helper that has written when the parent reads `k` bytes. -/
def writtenIo (w : Bytes) (k : Nat) : HelperIo :=
  { pipe := true, fork := true, poll := fun _ ↦ some 1, read := .bytes (w.take k) }

/-- An Allow to be remembered. -/
def rememberedAllow : Bytes := toUtf8 "ALLOW REMEMBER\n".toList

/-- A read that ends inside its second word forgets the remembering and nothing else. -/
theorem rememberedAllow_safe :
    parentWait (writtenIo rememberedAllow 9) sudoRequest = .ok ⟨.allow, false⟩ ∧
      FailSafe rememberedAllow (parentWait (writtenIo rememberedAllow 9) sudoRequest) := by
  refine ⟨by decide, ?_⟩
  apply (truncated_safe_iff (n := 1) (by decide) (by decide) (by decide) rfl (by decide) rfl).mpr
  rintro ⟨-, s, hs, hmis⟩
  have hread : fromUtf8 (rememberedAllow.take 9) = some "ALLOW REM".toList := by decide
  have hbehind : fromUtf8 ((firstLineBytes rememberedAllow).drop 9) = some "EMBER".toList := by
    decide
  have htokens : splitWhitespace "ALLOW REM".toList = [allowToken, "REM".toList] := by decide
  cases hread.symm.trans hs
  rw [hbehind] at hmis
  obtain ⟨-, hone | ⟨outcome, between, hlast, -⟩⟩ := hmis
  · rw [htokens] at hone
    cases hone
  · -- The word that was cut is not the whole `REMEMBER`.
    have hword := congrArg List.getLast? (htokens.symm.trans hlast)
    rw [← List.cons_append, List.getLast?_concat] at hword
    exact absurd (Option.some.inj hword) (by decide)

/-- A line that is no verdict, with its first word across the end of the buffer. -/
def shiftedAllowed : Bytes := toUtf8 "           ALLOWED\n".toList

/-- The read ends inside the word and the wait with an Allow. -/
theorem shiftedAllowed_misread :
    parentWait (writtenIo shiftedAllowed 16) sudoRequest = .ok ⟨.allow, false⟩ ∧
      ¬ FailSafe shiftedAllowed (parentWait (writtenIo shiftedAllowed 16) sudoRequest) := by
  have hwait : parentWait (writtenIo shiftedAllowed 16) sudoRequest = .ok ⟨.allow, false⟩ := by
    decide
  refine ⟨hwait, ?_⟩
  intro h
  obtain ⟨line, v, hline, hv, -⟩ := (h _ hwait).1 rfl
  have hdecoded : fromUtf8 (firstLineBytes shiftedAllowed) = some "           ALLOWED".toList := by
    decide
  have hnone : Verdict.fromStr "           ALLOWED".toList = none := by decide
  rw [hdecoded] at hline
  cases hline
  rw [hnone] at hv
  cases hv

end Sentinel.Pam.Helper
