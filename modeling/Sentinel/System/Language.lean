import Sentinel.Pam.Environment
import Sentinel.Pam.HelperEnv

/-!
# The language of the dialog

`ui_lang`, crate `sentinel-shared`, `crates/sentinel-shared/src/ui_i18n.rs:14-37`, in the
environment that the module gives to the helper: the privileged program has lost the locale of its
user, and the dialog speaks it all the same.
-/

namespace Sentinel.System.Language

open Sentinel.Base Sentinel.Base.KeyValue Sentinel.Shared Sentinel.Pam

/-- A character that ends the language of a locale. -/
def endsLanguage (c : Char) : Bool := c == '_' || c == '.' || c == '@'

/-- The language a variable asks for, `ui_i18n.rs:20-33`. -/
def languageOf (value : Str) : Option Str :=
  let v := trim value
  if v = [] ∨ v = "C".toList ∨ v = "POSIX".toList then none
  else
    let lang := (v.takeWhile fun c ↦ !endsLanguage c).map Char.toLower
    if lang = [] then none else some lang

/-- `ui_lang`, `ui_i18n.rs:17-37`. -/
def uiLang (env : Vars) : Str :=
  (["LC_ALL", "LC_MESSAGES", "LANG"].findSome? fun var ↦ (envVar env var).bind languageOf).getD
    "en".toList

/-- The variables of a process that was started with these assignments. -/
def started (env : List (Str × Str)) : Vars := fun name ↦ (firstValue name env).map toUtf8

private theorem languageOf_blank {value : Str} (h : trim value = []) : languageOf value = none :=
  if_pos (Or.inl h)

private theorem bind_fromUtf8 (own : Option Str) : (own.map toUtf8).bind fromUtf8 = own := by
  cases own with
  | none => rfl
  | some v => rw [Option.map_some, Option.bind_some, fromUtf8_toUtf8]

/-- One variable asks the helper for what it asks of the requesting process. -/
private theorem asks_same {own : Option Str} {inherited : Option Bytes}
    (husual : ∀ v, own = some v → isSafeLocaleValue v = true ∨ trim v = [])
    (hkept : inherited = none ∨ inherited = own.map toUtf8) :
    ((((own.filter isSafeLocaleValue).map toUtf8).or inherited).bind fromUtf8).bind languageOf =
      own.bind languageOf := by
  have hinherited (hsilent : own.bind languageOf = none) :
      (inherited.bind fromUtf8).bind languageOf = own.bind languageOf := by
    rcases hkept with rfl | rfl
    · exact hsilent.symm
    · rw [bind_fromUtf8]
  cases own with
  | none => exact hinherited rfl
  | some v =>
    by_cases hsafe : isSafeLocaleValue v = true
    · rw [Option.filter_some, if_pos hsafe, Option.map_some, Option.some_or, Option.bind_some,
        fromUtf8_toUtf8]
    · have hblank : trim v = [] := (husual v rfl).resolve_left hsafe
      rw [Option.filter_some, if_neg hsafe, Option.map_none, Option.none_or]
      exact hinherited (languageOf_blank hblank)

/-- The dialog speaks the language of the requesting process, whether the privileged program has
kept its locales or lost them, as long as none of them is of an unusual form. -/
theorem dialog_language {environs : Environs} {w : World} {req : HelperRequest} {user : User}
    {env : Vars} {own : List (Str × Str)} (hstarts : Starts environs w req user env)
    (hpid : 0 < req.requestingPid)
    (henv : environs req.requestingPid =
      some (cmdlineBytes (own.map fun kv ↦ toUtf8 (assignment kv))))
    (hproper : ∀ kv ∈ own, 0 ∉ toUtf8 (assignment kv) ∧ '=' ∉ kv.1)
    (husual : ∀ var ∈ forwardedVars, ∀ v, firstValue var own = some v →
      isSafeLocaleValue v = true ∨ trim v = [])
    (hkept : ∀ var ∈ forwardedVars, w.env var = none ∨ w.env var = started own var) :
    uiLang env = uiLang (started own) := by
  have hvar {var : String} (hmem : var.toList ∈ forwardedVars) :
      (envVar env var).bind languageOf = (envVar (started own) var).bind languageOf := by
    rw [envVar, envVar, hstarts.locale hmem, readEnvironVar_eq hpid henv hproper, started,
      bind_fromUtf8]
    exact asks_same (husual _ hmem) (hkept _ hmem)
  simp only [uiLang, List.findSome?_cons]
  rw [@hvar "LC_ALL" (by decide), @hvar "LC_MESSAGES" (by decide), @hvar "LANG" (by decide)]
  rfl

/-- A Turkish desktop with an empty `LC_ALL`, in front of a program that has lost its locales. -/
theorem dialog_language_tr :
    let own : List (Str × Str) :=
      [("HOME".toList, "/home/u".toList), ("LC_ALL".toList, []),
        ("LANG".toList, "tr_TR.UTF-8".toList), ("LANG".toList, "C".toList)]
    let environs : Environs := fun _ ↦
      some (cmdlineBytes (own.map fun kv ↦ toUtf8 (assignment kv)))
    let w := promptWorld fun _ ↦ none
    let user : User := ⟨"u".toList, toUtf8 "/home/u".toList⟩
    let env := childEnv (displayEnv w w.caller) user (readLocaleEnv environs w.host.pid)
    uiLang env = uiLang (started own) ∧ uiLang (started own) = "tr".toList := by
  intro own environs w user env
  have hstarts : Starts environs w ((promptOf w).helper 300) user env := ⟨_, List.Perm.refl _, rfl⟩
  refine ⟨dialog_language hstarts (by decide) rfl (by decide) ?_ fun _ _ ↦ .inl rfl, by decide⟩
  intro var hvar v hv
  simp only [forwardedVars, List.mem_cons, List.not_mem_nil, or_false] at hvar
  rcases hvar with rfl | rfl | rfl
  · cases hv
    exact .inr rfl
  · cases hv
  · cases hv
    exact .inl (by decide)

end Sentinel.System.Language
