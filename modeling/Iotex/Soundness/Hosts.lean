import Iotex.Lib.Runs
import Iotex.Model.Host

/-! # Settings of a host

A host behind its construction and any sequence of settings. The guard of `set` lets a null base URL
pass that the copy behind it reads through, and a rejected construction leaves the arrays as they were
in memory; a host reflects its last accepted setting exactly when neither happens.
-/

namespace Iotex

open Runs

/-- The arguments of the constructor or of a later `set`. -/
structure HostSetting where
  hostname : Bytes
  port : ℕ
  baseUrl : Option Bytes
  portFits : port < 65536

namespace HostSetting

/-- The base URL, where a null pointer counts as an empty one. -/
def url (setting : HostSetting) : Bytes := cString (setting.baseUrl.getD [])

/-- The text of the host with this setting. -/
def text (setting : HostSetting) : Bytes :=
  cString setting.hostname ++ ascii ":" ++ decimal setting.port ++
    (if setting.url ≠ [] then ascii "/" ++ setting.url else []) ++ ascii "/"

end HostSetting

/-- `set` of a setting. -/
def Host.apply (host : Host) (setting : HostSetting) : Exec (Bool × Host) :=
  host.set setting.hostname setting.port setting.baseUrl

/-- One setting, on the host and the setting that was last accepted. -/
def hostStep (state : Host × Option HostSetting) (setting : HostSetting) : Exec (Host × Option HostSetting) := do
  let (accepted, host) ← state.1.apply setting
  return (host, if accepted then some setting else state.2)

/-- The host behind some settings, of which the first one is that of its construction. -/
def hostAfter (memory : Host) (settings : List HostSetting) : Exec (Host × Option HostSetting) :=
  settings.foldlM hostStep (.declared memory, none)

/-- The host shows the setting, or two empty fields when none was accepted. -/
def Host.Shows (host : Host) : Option HostSetting → Prop
  | some setting => host.toString = .ok setting.text
  | none => stringIn host.hostname = .ok [] ∧ stringIn host.baseUrl = .ok []

/-- On every memory the setting is refused without a change or accepted, and the host then shows the
setting that was last accepted. -/
def Reflects (prior : List HostSetting) (setting : HostSetting) : Prop :=
  ∀ memory, ∃ host last accepted next, hostAfter memory prior = .ok (host, last) ∧
    host.apply setting = .ok (accepted, next) ∧ (accepted = false → next = host) ∧
    next.Shows (if accepted then some setting else last)

/-- The construction is within the lengths, and a later setting has a base URL or is refused for its name. -/
def Settable (prior : List HostSetting) (setting : HostSetting) : Prop :=
  (prior = [] → Host.rejects setting.hostname setting.baseUrl = false) ∧
    (setting.baseUrl = none → Host.ipMaxStringLen ≤ (cString setting.hostname).length)

/-! ## One setting -/

/-- The arrays and the port of an accepted setting. -/
structure Host.Holds (host : Host) (setting : HostSetting) : Prop where
  hostname : host.hostname = filled ipMaxStringLen (cString setting.hostname)
  baseUrl : host.baseUrl = filled baseurlMaxStringLen setting.url
  port : host.port = setting.port
  named : (cString setting.hostname).length < ipMaxStringLen
  located : setting.url.length < baseurlMaxStringLen

theorem stringIn_filled (text : Bytes) {maxStringLen : ℕ} (fits : (cString text).length < maxStringLen) :
    stringIn (Host.filled maxStringLen (cString text)) = .ok (cString text) := by
  obtain ⟨rest, zeros⟩ : ∃ rest, maxStringLen + 1 - (cString text).length = rest + 1 :=
    ⟨maxStringLen - (cString text).length, by omega⟩
  rw [Host.filled, zeros, List.replicate_succ]
  exact stringIn_terminated (cString_noNul text) _

/-- All digits of a port are printed. -/
theorem portStr_eq {host : Host} {port : ℕ} (same : host.port = port) (fits : port < 65536) :
    host.portStr = decimal port := by
  have value : (host.port % 2 ^ 32).toNat = port := by
    rw [same]
    omega
  rw [Host.portStr, value]
  exact List.take_of_length_le (decimal_length_le port (show 1 ≤ 5 by omega) (by omega))

/-- A host that holds a setting shows it. -/
theorem Host.Holds.shows {host : Host} {setting : HostSetting} (holds : host.Holds setting) :
    host.Shows (some setting) := by
  change host.toString = _
  rw [toString, holds.hostname, stringIn_filled _ holds.named, ok_bind, holds.baseUrl,
    HostSetting.url, stringIn_filled _ holds.located, ok_bind, portStr_eq holds.port setting.portFits]
  rfl

theorem apply_rejected {setting : HostSetting} (rejected : Host.rejects setting.hostname setting.baseUrl = true)
    (host : Host) : host.apply setting = .ok (false, host) := by
  rw [Host.apply, Host.set.eq_def, if_pos rejected]

/-- The copy reads through a null pointer that the guard let pass. -/
theorem apply_null {setting : HostSetting} (passed : Host.rejects setting.hostname setting.baseUrl = false)
    (null : setting.baseUrl = none) (host : Host) : host.apply setting = .error .outOfBounds := by
  rw [Host.apply, Host.set.eq_def, if_neg (by simp [passed]), null]

theorem apply_accepted {setting : HostSetting} (passed : Host.rejects setting.hostname setting.baseUrl = false)
    {url : Bytes} (given : setting.baseUrl = some url) (host : Host) :
    ∃ next, host.apply setting = .ok (true, next) ∧ next.Holds setting := by
  rw [Host.apply, Host.set.eq_def, if_neg (by simp [passed]), given]
  refine ⟨_, rfl, ?_⟩
  rw [given] at passed
  simp only [Host.rejects, Option.any_some, Bool.or_eq_false_iff, decide_eq_false_iff_not, not_le] at passed
  exact ⟨rfl, by simp [HostSetting.url, given], rfl, passed.1, by simpa [HostSetting.url, given] using passed.2⟩

/-- A null base URL is refused for its name only. -/
theorem rejects_null {hostname : Bytes} :
    Host.rejects hostname none = true ↔ Host.ipMaxStringLen ≤ (cString hostname).length := by
  simp [Host.rejects]

/-- A construction that can be made is accepted. -/
theorem apply_construction {setting : HostSetting} (settable : Settable [] setting) (host : Host) :
    ∃ next, host.apply setting = .ok (true, next) ∧ next.Holds setting := by
  obtain ⟨constructed, named⟩ := settable
  have passed := constructed rfl
  cases given : setting.baseUrl with
  | none =>
    have refused := rejects_null.mpr (named given)
    rw [← given, passed] at refused
    contradiction
  | some url => exact apply_accepted passed given host

/-- A setting on a host that holds one: refused without a change, or accepted. -/
theorem apply_holds {setting last : HostSetting}
    (settable : setting.baseUrl = none → Host.ipMaxStringLen ≤ (cString setting.hostname).length) {host : Host}
    (holds : host.Holds last) :
    ∃ accepted next, host.apply setting = .ok (accepted, next) ∧ (accepted = false → next = host) ∧
      next.Holds (if accepted then setting else last) := by
  cases rejected : Host.rejects setting.hostname setting.baseUrl with
  | true => exact ⟨false, host, apply_rejected rejected host, fun _ => rfl, holds⟩
  | false =>
    cases given : setting.baseUrl with
    | none =>
      have refused := rejects_null.mpr (settable given)
      rw [← given, rejected] at refused
      contradiction
    | some url =>
      obtain ⟨next, applied, now⟩ := apply_accepted rejected given host
      exact ⟨true, next, applied, fun refused => absurd refused (by decide), now⟩

/-! ## Runs -/

/-- One more setting behind a run. -/
theorem hostAfter_concat {memory : Host} {settings : List HostSetting} {state : Host × Option HostSetting}
    (before : hostAfter memory settings = .ok state) (setting : HostSetting) :
    hostAfter memory (settings ++ [setting]) = hostStep state setting := by
  rw [hostAfter, List.foldlM_append, ← hostAfter, before, ok_bind, List.foldlM_cons]
  exact bind_pure _

/-- Behind a construction and settings that can be made the host holds the one that was last accepted. -/
theorem hostAfter_settable {settings : List HostSetting} (each : AtEach Settable settings) (nonempty : settings ≠ [])
    (memory : Host) : ∃ host last, hostAfter memory settings = .ok (host, some last) ∧ host.Holds last := by
  induction settings using List.reverseRecOn with
  | nil => exact absurd rfl nonempty
  | append_singleton settings setting ih =>
    obtain ⟨earlier, constructed, settable⟩ := atEach_concat.mp each
    by_cases first : settings = []
    · subst first
      obtain ⟨next, applied, holds⟩ := apply_construction ⟨constructed, settable⟩ (.declared memory)
      refine ⟨next, setting, ?_, holds⟩
      have start : hostAfter memory [] = .ok (.declared memory, none) := rfl
      rw [hostAfter_concat start, hostStep, applied]
      rfl
    · obtain ⟨host, last, before, holds⟩ := ih earlier first
      obtain ⟨accepted, next, applied, -, now⟩ := apply_holds settable holds
      refine ⟨next, if accepted then setting else last, ?_, now⟩
      rw [hostAfter_concat before, hostStep, applied]
      cases accepted <;> rfl

/-- Memory of which no byte is zero. -/
def noisyMemory : Host where
  hostname := List.replicate 129 1
  baseUrl := List.replicate 129 1

/-- The construction is reflected exactly when it is within the lengths and has a base URL. -/
theorem reflects_construction_iff (setting : HostSetting) : Reflects [] setting ↔ Settable [] setting := by
  constructor
  · intro reflects
    obtain ⟨host, last, accepted, next, before, applied, kept, shows⟩ := reflects noisyMemory
    obtain ⟨rfl, rfl⟩ := Prod.mk.inj (Except.ok.inj before)
    have passed : Host.rejects setting.hostname setting.baseUrl = false := by
      by_contra rejected
      rw [apply_rejected (by simpa using rejected), Except.ok.injEq, Prod.mk.injEq] at applied
      obtain ⟨rfl, rfl⟩ := applied
      exact absurd shows.1 (by decide)
    refine ⟨fun _ => passed, ?_⟩
    intro null
    rw [apply_null passed null] at applied
    simp at applied
  · intro settable memory
    obtain ⟨next, applied, holds⟩ := apply_construction settable (.declared memory)
    exact ⟨.declared memory, none, true, next, rfl, applied, fun refused => absurd refused (by decide), holds.shows⟩

/-- A later setting is reflected exactly when it has a base URL or is refused for its name. -/
theorem reflects_later_iff {prior : List HostSetting} (each : AtEach Settable prior) (nonempty : prior ≠ [])
    (setting : HostSetting) : Reflects prior setting ↔ Settable prior setting := by
  constructor
  · intro reflects
    obtain ⟨host, last, accepted, next, -, applied, -⟩ := reflects noisyMemory
    refine ⟨fun first => absurd first nonempty, ?_⟩
    intro null
    rw [← rejects_null, ← null]
    by_contra passed
    rw [apply_null (by simpa using passed) null] at applied
    simp at applied
  · rintro ⟨-, settable⟩ memory
    obtain ⟨host, last, before, holds⟩ := hostAfter_settable each nonempty memory
    obtain ⟨accepted, next, applied, kept, now⟩ := apply_holds settable holds
    refine ⟨host, some last, accepted, next, before, applied, kept, ?_⟩
    cases accepted with
    | true => exact now.shows
    | false => exact now.shows

/-- Every setting of a host is reflected exactly when its construction is within the lengths and every
setting has a base URL or is refused for its name. -/
theorem host_reflects_iff (settings : List HostSetting) : AtEach Reflects settings ↔ AtEach Settable settings := by
  apply atEach_congr
  intro prior setting _ each
  by_cases first : prior = []
  · rw [first]
    exact reflects_construction_iff setting
  · exact reflects_later_iff each first setting

/-- The run starts with the constructor. -/
theorem hostAfter_construct (memory : Host) (setting : HostSetting) :
    (hostAfter memory [setting]).map Prod.fst =
      Host.construct memory setting.hostname setting.port setting.baseUrl := by
  have start : hostAfter memory [] = .ok (.declared memory, none) := rfl
  rw [← List.nil_append [setting], hostAfter_concat start, hostStep, Host.construct, Host.apply]
  cases (Host.declared memory).set setting.hostname setting.port setting.baseUrl <;> rfl

namespace Node

/-- A host without a base URL, as the default argument makes it. -/
def plain : HostSetting := ⟨ascii "gateway.iotexlab.io", 10000, none, by omega⟩

/-- A name that does not fit. -/
def long : HostSetting := ⟨List.replicate 128 97, 10000, some [], by omega⟩

theorem rejects_long : Host.rejects long.hostname long.baseUrl = true := by
  have plain : (0 : UInt8) ∉ List.replicate 128 97 := by
    intro member
    exact absurd (List.eq_of_mem_replicate member) (by decide)
  have length : (cString long.hostname).length = 128 := by
    rw [long, cString_of_noNul plain, List.length_replicate]
  simp [Host.rejects, length, Host.ipMaxStringLen]

end Node

open Node in
/-- The default argument is read through, and a rejected construction is not defined for memory without
zeros, whatever its text would be. -/
theorem defaultBaseUrl_faults :
    (∀ memory, Host.construct memory plain.hostname plain.port plain.baseUrl = .error .outOfBounds) ∧
      ¬AtEach Reflects [plain] ∧
      (∃ host, Host.construct noisyMemory long.hostname long.port long.baseUrl = .ok host ∧
        host.toString = .error .outOfBounds) ∧
      ¬AtEach Reflects [long] := by
  have rejected := apply_rejected rejects_long (.declared noisyMemory)
  have noEnd : (0 : UInt8) ∉ noisyMemory.hostname := by
    intro member
    exact absurd (List.eq_of_mem_replicate member) (by decide)
  refine ⟨?_, ?_, ⟨.declared noisyMemory, ?_, ?_⟩, ?_⟩
  · intro memory
    have faults := @apply_null plain (by decide) rfl (.declared memory)
    rw [Host.apply] at faults
    rw [Host.construct, faults]
    rfl
  · intro each
    have settable := (reflects_construction_iff plain).mp (each [] plain [] rfl)
    exact absurd (settable.2 rfl) (by decide)
  · rw [Host.apply] at rejected
    rw [Host.construct, rejected, Except.map]
  · rw [Host.toString, Host.declared, stringIn, if_neg noEnd]
    rfl
  · intro each
    have settable := (reflects_construction_iff long).mp (each [] long [] rfl)
    have passed := settable.1 rfl
    rw [rejects_long] at passed
    exact absurd passed (by decide)

end Iotex
