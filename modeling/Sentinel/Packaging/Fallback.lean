import Mathlib.Data.List.Nodup
import Sentinel.Base.Sweep
import Sentinel.Packaging.Reinstall
import Sentinel.Packaging.Stack

/-!
# Uninstalling without a state file

Script `packaging-kde/uninstall.sh:109-190`. When `install.state` is lost the uninstaller goes by
path names: what Sentinel owns is restored from its backup or removed, and a PAM stack is restored
from its backup or loses the lines that load the module, but is never removed.
-/

namespace Sentinel.Packaging

open Sentinel.Base Sentinel.Base.Shell Sentinel.Base.Undo

/-! ### The script -/

/-- The directories the uninstaller takes from its environment, `uninstall.sh:25-27`. -/
structure Dirs where
  prefixDir : Path
  sysconfdir : Path
  libexecdir : Path
  deriving DecidableEq, Repr

/-- The services whose stacks are edited in place. -/
def services : List Str := ["polkit-1".toList, "sudo".toList, "sudo-i".toList, "su".toList]

/-- `sed '/pam_sentinel\.so/d'`, `uninstall.sh:178`: a last line without a newline stays so. -/
def stripSentinel (text : Str) : Str :=
  let pieces := text.splitOn '\n'
  unlines (pieces.dropLast.filter fun l ↦ !mentionsSentinel l) ++
    (pieces.getLast?.filter fun l ↦ !mentionsSentinel l).getD []

/-- A turn of the first loop, `uninstall.sh:147-155`. -/
def ownedCell : Cell Str
  | none, saved => (none, saved)
  | some _, some original => (some original, none)
  | some _, none => (none, none)

/-- A turn of the second loop, `uninstall.sh:168-185`. -/
def sharedCell : Cell Str
  | none, saved => (none, saved)
  | some _, some original => (some original, none)
  | some text, none => (some (if mentionsSentinel text then stripSentinel text else text), none)

namespace Dirs

variable (d : Dirs)

/-- `FALLBACK_OWNED`, `uninstall.sh:125-146`. -/
def owned : List Path :=
  [inDir "/usr/lib64/security".toList "pam_sentinel.so".toList,
    inDir "/usr/lib/security".toList "pam_sentinel.so".toList,
    inDir (inDir d.prefixDir d.libexecdir) "sentinel-helper-kde".toList,
    inDir (inDir d.prefixDir d.libexecdir) "sentinel-polkit-agent".toList,
    inDir (inDir d.prefixDir d.libexecdir) "sentinel-broker".toList,
    inDirs d.prefixDir ["lib", "systemd", "user", "sentinel-polkit-agent.service"],
    inDirs d.sysconfdir ["systemd", "system", "sentinel-broker.service"],
    inDirs d.sysconfdir ["security", "sentinel.conf"],
    inDirs d.sysconfdir ["sudoers.d", "sentinel-timestamp"],
    inDirs d.sysconfdir ["polkit-1", "rules.d", "49-sentinel-admin.rules"],
    inDirs d.prefixDir ["share", "dbus-1", "system.d", "org.sentinel.Agent.conf"],
    inDirs d.prefixDir ["lib", "tmpfiles.d", "sentinel.conf"],
    inDirs d.sysconfdir ["systemd", "system", "polkit.service.d", "sentinel.conf"],
    inDirs d.sysconfdir ["systemd", "system", "polkit-agent-helper@.service.d", "sentinel.conf"],
    inDirs d.prefixDir ["share", "man", "man1", "sentinel-polkit-agent.1"],
    inDirs d.prefixDir ["share", "man", "man5", "sentinel.conf.5"],
    inDirs d.prefixDir ["share", "man", "man8", "pam_sentinel.8"],
    inDirs d.prefixDir ["share", "bash-completion", "completions", "sentinel-polkit-agent"],
    inDirs d.prefixDir ["share", "fish", "vendor_completions.d", "sentinel-polkit-agent.fish"],
    inDirs d.prefixDir ["share", "zsh", "site-functions", "_sentinel-polkit-agent"]]

/-- `FALLBACK_SHARED_PAM`, `uninstall.sh:161-166`. -/
def sharedPam : List Path := services.map (pamTarget d.sysconfdir)

/-- The files behind the fallback, `uninstall.sh:147-186`. -/
def fallback (t : Tree) : Tree :=
  let swept := sweep backupOf sharedCell d.sharedPam (sweep backupOf ownedCell d.owned t)
  fun p ↦ if Machine.underRuntime p then none else swept p

end Dirs

/-- A file name that is neither one of a PAM stack nor an end of a backup name. -/
def Foreign (name : Str) : Prop := Proper name ∧ '/' ∉ name ∧ name ∉ services

instance (name : Str) : Decidable (Foreign name) := inferInstanceAs (Decidable (_ ∧ _))

/-- A path with such a file name. -/
def ForeignPath (p : Path) : Prop := ∃ dir name, p = inDir dir name ∧ Foreign name

private theorem services_spec {svc : Str} (h : svc ∈ services) : Proper svc ∧ '/' ∉ svc := by
  have hall : ∀ s ∈ services, Proper s ∧ '/' ∉ s := by decide
  exact hall svc h

/-- The last slash ends the directory. -/
private theorem inDir_inj {dir dir' name name' : Str} (hn : '/' ∉ name) (hn' : '/' ∉ name')
    (h : inDir dir name = inDir dir' name') : dir = dir' ∧ name = name' := by
  have hrev := congrArg List.reverse h
  rw [inDir, inDir, List.reverse_append, List.reverse_append, List.reverse_cons, List.reverse_cons,
    List.append_assoc, List.append_assoc, List.singleton_append, List.singleton_append] at hrev
  obtain ⟨hname, hdir⟩ := append_sep_inj (by simpa using hn) (by simpa using hn') hrev
  exact ⟨List.reverse_injective hdir, List.reverse_injective hname⟩

private theorem ForeignPath.proper {p : Path} (h : ForeignPath p) : ProperPath p := by
  obtain ⟨dir, name, rfl, hname, -⟩ := h
  exact ⟨dir, name, rfl, hname⟩

private theorem ForeignPath.ne_stack {p : Path} (h : ForeignPath p) {svc : Str}
    (hsvc : svc ∈ services) (dir : Path) : p ≠ inDir dir svc := by
  obtain ⟨dir', name, rfl, -, hslash, hname⟩ := h
  intro he
  exact hname ((inDir_inj hslash (services_spec hsvc).2 he).2 ▸ hsvc)

private theorem properPath_stack {svc : Str} (h : svc ∈ services) (dir : Path) :
    ProperPath (inDir dir svc) := ⟨dir, svc, rfl, (services_spec h).1⟩

private theorem owned_foreign (d : Dirs) : ∀ p ∈ d.owned, ForeignPath p := by
  have hfile (dir name : Str) (h : Foreign name) : ForeignPath (inDir dir name) :=
    ⟨dir, name, rfl, h⟩
  intro p hp
  simp only [Dirs.owned, List.mem_cons, List.not_mem_nil, or_false] at hp
  rcases hp with rfl | rfl | rfl | rfl | rfl | rfl | rfl | rfl | rfl | rfl | rfl | rfl | rfl | rfl |
    rfl | rfl | rfl | rfl | rfl | rfl
  all_goals exact hfile _ _ (by decide)

private theorem mem_sharedPam {d : Dirs} {p : Path} :
    p ∈ d.sharedPam ↔ ∃ svc ∈ services, pamTarget d.sysconfdir svc = p := List.mem_map

private theorem sharedPam_nodup (d : Dirs) : d.sharedPam.Nodup := by
  have hservices : services.Nodup := by decide
  apply List.Nodup.map_on _ hservices
  intro svc hsvc svc' hsvc' h
  exact (inDir_inj (services_spec hsvc).2 (services_spec hsvc').2 h).2

/-! ### Stripping a stack -/

/-- The lines of a stack that count without Sentinel: no header and none that loads the module. -/
def ownEntries (text : Str) : List Str :=
  entries ((lines text).filter fun l ↦ !mentionsSentinel l)

private theorem stripSentinel_cons {l : Str} (h : '\n' ∉ l) (text : Str) :
    stripSentinel (l ++ '\n' :: text) =
      (if mentionsSentinel l then [] else l ++ ['\n']) ++ stripSentinel text := by
  have hsplit : (l ++ '\n' :: text).splitOn '\n' = l :: text.splitOn '\n' :=
    List.splitOn_append_cons_self_of_not_mem h text
  have hne : text.splitOn '\n' ≠ [] := List.splitOn_ne_nil '\n' text
  rw [stripSentinel, stripSentinel, hsplit]
  simp only [List.getLast?_cons_of_ne_nil hne, List.dropLast_cons_of_ne_nil hne]
  cases hl : mentionsSentinel l with
  | true => simp [hl]
  | false => simp [hl, unlines]

private theorem stripSentinel_of_not_mem {text : Str} (h : '\n' ∉ text) :
    stripSentinel text = if mentionsSentinel text then [] else text := by
  rw [stripSentinel, List.splitOn_eq_singleton h]
  cases hl : mentionsSentinel text with
  | true => simp [unlines, hl, Option.filter]
  | false => simp [unlines, hl, Option.filter]

/-- Exactly the lines that load the module are gone. -/
theorem lines_stripSentinel (text : Str) :
    lines (stripSentinel text) = (lines text).filter fun l ↦ !mentionsSentinel l := by
  -- On the length: the first newline separates the first line from the rest.
  induction hn : text.length using Nat.strongRecOn generalizing text with
  | ind n ih =>
    by_cases hnl : '\n' ∈ text
    · obtain ⟨a, b, rfl, ha⟩ := List.eq_append_cons_of_mem hnl
      have hlt : b.length < n := by
        rw [List.length_append, List.length_cons] at hn
        omega
      rw [stripSentinel_cons ha, lines_cons ha, List.filter_cons]
      cases hl : mentionsSentinel a with
      | true => simpa using ih b.length hlt b rfl
      | false =>
        rw [if_neg Bool.false_ne_true, List.append_assoc, List.singleton_append, lines_cons ha,
          ih b.length hlt b rfl]
        rfl
    · rw [stripSentinel_of_not_mem hnl, lines_of_not_mem hnl]
      cases hl : mentionsSentinel text with
      | true =>
        by_cases ht : text = []
        · simp [ht, lines]
        · simp [ht, hl, lines]
      | false =>
        rw [if_neg Bool.false_ne_true, lines_of_not_mem hnl]
        by_cases ht : text = []
        · simp [ht]
        · simp [ht, hl]

private theorem mentionsSentinel_of_mem {text l : Str} (hl : l ∈ lines text)
    (h : mentionsSentinel l = true) : mentionsSentinel text = true := by
  have hin : "pam_sentinel.so".toList <:+: l := of_decide_eq_true h
  exact decide_eq_true (hin.trans (of_mem_lines hl).2)

private theorem mentionsSentinel_line : mentionsSentinel sentinelPamLine = true :=
  decide_eq_true ⟨"auth       sufficient ".toList,
    "   # Sentinel-KDE: confirm instead of password".toList, by decide +kernel⟩

private theorem ownEntries_strip (text : Str) :
    ownEntries (stripSentinel text) = ownEntries text := by
  rw [ownEntries, ownEntries, lines_stripSentinel, List.filter_filter]
  simp only [Bool.and_self]

/-- A wired stack has the line in its text. -/
private theorem mentionsSentinel_unlines (before after : List Str) :
    mentionsSentinel (unlines (before ++ sentinelPamLine :: after)) = true := by
  have hin : "pam_sentinel.so".toList <:+: sentinelPamLine :=
    of_decide_eq_true mentionsSentinel_line
  apply decide_eq_true
  apply hin.trans
  refine ⟨unlines before, ['\n'] ++ unlines after, ?_⟩
  simp [unlines]

private theorem entries_filter (ls : List Str) (p : Str → Bool) :
    entries (ls.filter p) = (entries ls).filter p := by
  rw [entries, entries, List.filter_comm]

/-- The header of a rebuilt stack does not count. -/
private theorem entries_rebuilt (ls : List Str) :
    entries ("#%PAM-1.0".toList :: sentinelPamLine :: entries ls) =
      sentinelPamLine :: entries ls := by
  have hhead : isHeader "#%PAM-1.0".toList = true := by decide
  have hline : isHeader sentinelPamLine = false := by decide +kernel
  rw [entries, List.filter_cons_of_neg (by rw [hhead]; decide),
    List.filter_cons_of_pos (by rw [hline]; rfl), entries, List.filter_filter]
  simp only [Bool.and_self]

/-- Wiring a stack adds the line and touches nothing else that counts. -/
private theorem wireStack_spec {base text : Str} (h : wireStack base = some text) :
    mentionsSentinel text = true ∧ ownEntries text = ownEntries base := by
  have hnl : ∀ l ∈ lines base, '\n' ∉ l := fun l hl ↦ (of_mem_lines hl).1
  have hline : '\n' ∉ sentinelPamLine := by decide +kernel
  rcases anchor_cases (lines base) with hnone | ⟨before, anchor, after, hbase, hb, ha⟩
  · rw [wireStack, foldl_wireLine_copied hnone, ← entries] at h
    cases hbody : entries (lines base) with
    | nil =>
      rw [hbody] at h
      cases h
    | cons e es =>
      rw [hbody] at h
      have htext : text =
          unlines (["#%PAM-1.0".toList] ++ sentinelPamLine :: entries (lines base)) := by
        rw [hbody]
        exact (Option.some.inj h).symm
      have hall : ∀ l ∈ "#%PAM-1.0".toList :: sentinelPamLine :: entries (lines base),
          '\n' ∉ l := by
        intro l hl
        rcases List.mem_cons.mp hl with rfl | hl
        · decide
        · rcases List.mem_cons.mp hl with rfl | hl
          · exact hline
          · exact hnl l (List.mem_of_mem_filter hl)
      refine ⟨htext ▸ mentionsSentinel_unlines _ _, ?_⟩
      rw [ownEntries, ownEntries, htext, List.singleton_append, lines_unlines hall, entries_filter,
        entries_filter, entries_rebuilt,
        List.filter_cons_of_neg (by rw [mentionsSentinel_line]; decide)]
  · rw [wireStack, hbase, foldl_wireLine_anchor hb ha] at h
    cases h
    have hall : ∀ l ∈ before ++ sentinelPamLine :: anchor :: after, '\n' ∉ l := by
      rw [hbase] at hnl
      intro l hl
      rcases List.mem_append.mp hl with hl | hl
      · exact hnl l (List.mem_append_left _ hl)
      · rcases List.mem_cons.mp hl with rfl | hl
        · exact hline
        · exact hnl l (List.mem_append_right _ hl)
    refine ⟨mentionsSentinel_unlines _ _, ?_⟩
    rw [ownEntries, ownEntries, lines_unlines hall, hbase, List.filter_append, List.filter_append,
      List.filter_cons_of_neg (by rw [mentionsSentinel_line]; decide)]

/-! ### What a run does to a stack -/

private theorem findPamBase_congr {sysconfdir : Path} {t t' : Tree} {svc : Str}
    (h : ∀ dir, t (inDir dir svc) = t' (inDir dir svc)) :
    findPamBase sysconfdir t svc = findPamBase sysconfdir t' svc := by
  simp only [findPamBase, h]

private theorem findPamBase_of_target {sysconfdir : Path} {t : Tree} {svc text : Str}
    (h : t (pamTarget sysconfdir svc) = some text) :
    findPamBase sysconfdir t svc = some text := by
  rw [pamTarget] at h
  rw [findPamBase, List.findSome?_cons, h]

/-- Where a service stands in a run: every stack of it is as it was in front of the run, or the one
that shadows it is wired from the base it had and its own content is kept. -/
inductive Standing (sysconfdir : Path) (t₀ t : Tree) (svc : Str) : Prop
  | untouched (same : ∀ dir, t (inDir dir svc) = t₀ (inDir dir svc) ∧
      t (backupOf (inDir dir svc)) = t₀ (backupOf (inDir dir svc)))
  | wired {base text : Str} (found : findPamBase sysconfdir t₀ svc = some base)
      (unwired : (t₀ (pamTarget sysconfdir svc)).any mentionsSentinel = false)
      (made : wireStack base = some text) (target : t (pamTarget sysconfdir svc) = some text)
      (saved : t (backupOf (pamTarget sysconfdir svc)) = t₀ (pamTarget sysconfdir svc))

private theorem installFile_of_ne {s : Session} {dst q : Path} (hq : q ≠ dst)
    (hb : q ≠ backupOf dst) (content : Str) : (s.installFile dst content).tree q = s.tree q := by
  show Function.update (keep backupOf s.tree dst) dst (some content) q = s.tree q
  rw [Function.update_of_ne hq, keep_of_ne hb]

section Run

variable {env : Env} {t₀ : Tree} {s s' : Session} {svc : Str}

/-- A file that is no stack of the service is put in place. -/
private theorem Standing.other (h : Standing env.sysconfdir t₀ s.tree svc) (hsvc : svc ∈ services)
    {dst : Path} (hdst : ProperPath dst) (hne : ∀ dir, dst ≠ inDir dir svc) (content : Str) :
    Standing env.sysconfdir t₀ (s.installFile dst content).tree svc := by
  have hstack (dir : Path) :
      (s.installFile dst content).tree (inDir dir svc) = s.tree (inDir dir svc) :=
    installFile_of_ne (hne dir).symm ((properPath_stack hsvc dir).ne_backupOf dst) content
  have hsaved (dir : Path) : (s.installFile dst content).tree (backupOf (inDir dir svc)) =
      s.tree (backupOf (inDir dir svc)) := by
    apply installFile_of_ne
    · exact (hdst.ne_backupOf _).symm
    · exact fun he ↦ hne dir (backupOf_injective he).symm
  cases h with
  | untouched same =>
    apply Standing.untouched
    intro dir
    rw [hstack, hsaved]
    exact same dir
  | wired found unwired made target saved =>
    apply Standing.wired found unwired made
    · rw [pamTarget, hstack]
      exact target
    · rw [pamTarget, hsaved]
      exact saved

/-- What is written for a service that is wired. -/
private theorem wirePamService_cases {sysconfdir : Path} {t : Tree} {svc : Str} {dst : Path}
    {content : Str} (h : wirePamService sysconfdir t svc = .install dst content) :
    dst = pamTarget sysconfdir svc ∧ (t (pamTarget sysconfdir svc)).any mentionsSentinel = false ∧
      ∃ base, findPamBase sysconfdir t svc = some base ∧ wireStack base = some content := by
  rw [wirePamService] at h
  split at h
  · cases h
  next base hfound =>
    split at h
    · cases h
    next hunwired =>
      split at h
      · cases h
      next text hmade =>
        cases h
        exact ⟨rfl, Bool.not_eq_true _ ▸ hunwired, base, hfound, hmade⟩

/-- The service itself is wired, once. -/
private theorem Standing.wire (h : Standing env.sysconfdir t₀ s.tree svc)
    (hfresh : t₀ (backupOf (pamTarget env.sysconfdir svc)) = none) {dst : Path} {content : Str}
    (hcall : wirePamService env.sysconfdir s.tree svc = .install dst content) :
    Standing env.sysconfdir t₀ (s.installFile dst content).tree svc := by
  obtain ⟨rfl, hunwired, base, hfound, hmade⟩ := wirePamService_cases hcall
  cases h with
  | untouched same =>
    have htarget : s.tree (pamTarget env.sysconfdir svc) = t₀ (pamTarget env.sysconfdir svc) :=
      (same _).1
    have hbackup : s.tree (backupOf (pamTarget env.sysconfdir svc)) = none :=
      (same _).2.trans hfresh
    have hne : backupOf (pamTarget env.sysconfdir svc) ≠ pamTarget env.sysconfdir svc := by
      intro he
      have hlen := congrArg List.length he
      simp [backupOf] at hlen
    have hbase : findPamBase env.sysconfdir t₀ svc = some base := by
      rw [← hfound]
      exact findPamBase_congr fun dir ↦ (same dir).1.symm
    apply Standing.wired hbase (htarget ▸ hunwired) hmade
    · show Function.update (keep backupOf s.tree _) _ (some content) _ = some content
      rw [Function.update_self]
    · show Function.update (keep backupOf s.tree _) _ (some content) _ = _
      rw [Function.update_of_ne hne, ← htarget]
      cases ht : s.tree (pamTarget env.sysconfdir svc) with
      | none => rw [keep_of_none ht, hbackup]
      | some c => rw [keep_backup ht, hbackup, Option.getD_none]
  | wired found unwired made target saved =>
    rw [target, Option.any_some, (wireStack_spec made).1] at hunwired
    cases hunwired

end Run

/-! ### What the fallback leaves of a stack -/

section Fallback

variable {d : Dirs} {t₀ t : Tree} {svc : Str}

private theorem swept_owned (hsvc : svc ∈ services) (t : Tree) (dir : Path) :
    sweep backupOf ownedCell d.owned t (inDir dir svc) = t (inDir dir svc) ∧
      sweep backupOf ownedCell d.owned t (backupOf (inDir dir svc)) =
        t (backupOf (inDir dir svc)) := by
  have hproper := properPath_stack hsvc dir
  constructor
  · apply sweep_of_ne
    intro p hp
    exact ⟨((owned_foreign d p hp).ne_stack hsvc dir).symm, hproper.ne_backupOf p⟩
  · apply sweep_of_ne
    intro p hp
    refine ⟨((owned_foreign d p hp).proper.ne_backupOf _).symm, ?_⟩
    exact fun he ↦ (owned_foreign d p hp).ne_stack hsvc dir (backupOf_injective he).symm

private theorem fallback_apply {p : Path} (h : Machine.underRuntime p = false) (t : Tree) :
    d.fallback t p =
      sweep backupOf sharedCell d.sharedPam (sweep backupOf ownedCell d.owned t) p := by
  show (if Machine.underRuntime p then none else _) = _
  rw [h]
  rfl

private theorem sharedPam_apart : ∀ p ∈ d.sharedPam, ∀ q, p ≠ backupOf q := by
  intro p hp q
  obtain ⟨svc, hsvc, rfl⟩ := mem_sharedPam.mp hp
  exact (properPath_stack hsvc _).ne_backupOf q

/-- The second loop takes its turn at the stack that shadows a service and at its backup. -/
private theorem swept_target (hsvc : svc ∈ services) (t : Tree) :
    sweep backupOf sharedCell d.sharedPam (sweep backupOf ownedCell d.owned t)
        (pamTarget d.sysconfdir svc) =
      (sharedCell (t (pamTarget d.sysconfdir svc))
        (t (backupOf (pamTarget d.sysconfdir svc)))).1 ∧
    sweep backupOf sharedCell d.sharedPam (sweep backupOf ownedCell d.owned t)
        (backupOf (pamTarget d.sysconfdir svc)) =
      (sharedCell (t (pamTarget d.sysconfdir svc))
        (t (backupOf (pamTarget d.sysconfdir svc)))).2 := by
  have hmem : pamTarget d.sysconfdir svc ∈ d.sharedPam := mem_sharedPam.mpr ⟨svc, hsvc, rfl⟩
  obtain ⟨hkept, hsaved⟩ := swept_owned (d := d) hsvc t (inDir d.sysconfdir "pam.d".toList)
  have hswept := sweep_self sharedCell backupOf_injective (sharedPam_nodup d)
    sharedPam_apart hmem (sweep backupOf ownedCell d.owned t)
  rw [hswept.1, hswept.2, pamTarget, hkept, hsaved]
  exact ⟨rfl, rfl⟩

/-- What is left of the stack that shadows a service. -/
private theorem fallback_target (hsvc : svc ∈ services)
    (hruntime : Machine.underRuntime (pamTarget d.sysconfdir svc) = false) :
    d.fallback t (pamTarget d.sysconfdir svc) =
      (sharedCell (t (pamTarget d.sysconfdir svc))
        (t (backupOf (pamTarget d.sysconfdir svc)))).1 := by
  rw [fallback_apply hruntime, (swept_target hsvc t).1]

/-- The other stacks of a service are left alone. -/
private theorem fallback_other (hsvc : svc ∈ services) {dir : Path}
    (hne : inDir dir svc ≠ pamTarget d.sysconfdir svc)
    (hruntime : Machine.underRuntime (inDir dir svc) = false) :
    d.fallback t (inDir dir svc) = t (inDir dir svc) := by
  rw [fallback_apply hruntime, sweep_of_ne, (swept_owned hsvc t dir).1]
  intro p hp
  refine ⟨?_, (properPath_stack hsvc dir).ne_backupOf p⟩
  obtain ⟨svc', hsvc', rfl⟩ := mem_sharedPam.mp hp
  intro he
  have hsame : svc = svc' := (inDir_inj (services_spec hsvc).2 (services_spec hsvc').2 he).2
  rw [← hsame] at he
  exact hne he

/-- Nothing is found for a service that had nothing of its own but what was found before. -/
private theorem findPamBase_fallback_none (hsvc : svc ∈ services)
    (hruntime : Machine.underRuntime (pamTarget d.sysconfdir svc) = false)
    (hsame : ∀ dir, t (inDir dir svc) = t₀ (inDir dir svc))
    (hnone : t₀ (pamTarget d.sysconfdir svc) = none) :
    d.fallback t (pamTarget d.sysconfdir svc) = none ∧
      findPamBase d.sysconfdir (d.fallback t) svc = findPamBase d.sysconfdir t₀ svc := by
  have hvendor : ∀ s ∈ services, Machine.underRuntime (inDir "/usr/lib/pam.d".toList s) = false ∧
      Machine.underRuntime (inDir "/usr/etc/pam.d".toList s) = false ∧
      Machine.underRuntime (inDir "/lib/pam.d".toList s) = false := by decide
  have htarget : t (pamTarget d.sysconfdir svc) = none := (hsame _).trans hnone
  have hleft : d.fallback t (pamTarget d.sysconfdir svc) = none := by
    rw [fallback_target hsvc hruntime, htarget]
    rfl
  have hdir (dir : Path) (hr : Machine.underRuntime (inDir dir svc) = false) :
      d.fallback t (inDir dir svc) = t₀ (inDir dir svc) := by
    by_cases he : inDir dir svc = pamTarget d.sysconfdir svc
    · rw [he, hleft, hnone]
    · rw [fallback_other hsvc he hr, hsame]
  refine ⟨hleft, ?_⟩
  obtain ⟨h₁, h₂, h₃⟩ := hvendor svc hsvc
  simp only [findPamBase, List.findSome?_cons, List.findSome?_nil, hdir _ hruntime, hdir _ h₁,
    hdir _ h₂, hdir _ h₃]

private theorem stripSentinel_clean (text : Str) :
    ∀ l ∈ lines (stripSentinel text), mentionsSentinel l = false := by
  intro l hl
  rw [lines_stripSentinel] at hl
  simpa using (List.mem_filter.mp hl).2

private theorem lines_clean {text : Str} (hm : mentionsSentinel text = false) :
    ∀ l ∈ lines text, mentionsSentinel l = false := by
  intro l hl
  cases hml : mentionsSentinel l with
  | false => rfl
  | true => rw [mentionsSentinel_of_mem hl hml] at hm; cases hm

/-- A stack that is left without the module, with the entries that its base had on their own. -/
private theorem kept_of_target {left : Tree} {text base : Str}
    (hleft : left (pamTarget d.sysconfdir svc) = some text)
    (hbase : findPamBase d.sysconfdir t₀ svc = some base) (hown : ownEntries text = ownEntries base)
    (hclean : ∀ l ∈ lines text, mentionsSentinel l = false) :
    (findPamBase d.sysconfdir left svc).map ownEntries =
        (findPamBase d.sysconfdir t₀ svc).map ownEntries ∧
      ∀ text, left (pamTarget d.sysconfdir svc) = some text →
        ∀ l ∈ lines text, mentionsSentinel l = false := by
  rw [findPamBase_of_target hleft, hbase, hleft]
  refine ⟨congrArg some hown, ?_⟩
  rintro _ ⟨⟩
  exact hclean

/-- Wherever a service stands, the fallback gives it back the stack it had, but for headers and
for lines that load the module. -/
private theorem Standing.fallback (h : Standing d.sysconfdir t₀ t svc) (hsvc : svc ∈ services)
    (hruntime : Machine.underRuntime (pamTarget d.sysconfdir svc) = false)
    (hfresh : t₀ (backupOf (pamTarget d.sysconfdir svc)) = none) :
    (findPamBase d.sysconfdir (d.fallback t) svc).map ownEntries =
        (findPamBase d.sysconfdir t₀ svc).map ownEntries ∧
      ∀ text, d.fallback t (pamTarget d.sysconfdir svc) = some text →
        ∀ l ∈ lines text, mentionsSentinel l = false := by
  have hleft := fallback_target (t := t) hsvc hruntime
  cases h with
  | untouched same =>
    have htarget : t (pamTarget d.sysconfdir svc) = t₀ (pamTarget d.sysconfdir svc) := (same _).1
    have hbackup : t (backupOf (pamTarget d.sysconfdir svc)) = none := (same _).2.trans hfresh
    rw [htarget, hbackup] at hleft
    cases hown : t₀ (pamTarget d.sysconfdir svc) with
    | none =>
      obtain ⟨hleft, hbase⟩ := findPamBase_fallback_none hsvc hruntime (fun dir ↦ (same dir).1) hown
      rw [hbase, hleft]
      exact ⟨rfl, by simp⟩
    | some text =>
      rw [hown] at hleft
      cases hm : mentionsSentinel text with
      | true =>
        simp only [sharedCell, hm, if_true] at hleft
        exact kept_of_target hleft (findPamBase_of_target hown) (ownEntries_strip text)
          (stripSentinel_clean text)
      | false =>
        simp only [sharedCell, hm, Bool.false_eq_true, if_false] at hleft
        exact kept_of_target hleft (findPamBase_of_target hown) rfl (lines_clean hm)
  | wired found unwired made target saved =>
    obtain ⟨hm, hown⟩ := wireStack_spec made
    rw [target, saved] at hleft
    cases hown' : t₀ (pamTarget d.sysconfdir svc) with
    | none =>
      rw [hown'] at hleft
      simp only [sharedCell, hm, if_true] at hleft
      exact kept_of_target hleft found ((ownEntries_strip _).trans hown) (stripSentinel_clean _)
    | some text =>
      rw [hown'] at hleft unwired
      exact kept_of_target hleft (findPamBase_of_target hown') rfl (lines_clean unwired)

end Fallback

/-! ### Behind a lost state file -/

namespace Machine

variable {m₀ m₁ m : Machine} {envs : List Env} {env : Env} {earlier written : List Path}

end Machine

/-! ### What the fallback restores -/

namespace Machine

end Machine

end Sentinel.Packaging
