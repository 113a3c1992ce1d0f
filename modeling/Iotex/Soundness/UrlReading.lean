import Iotex.Model.Nano33Http
import Iotex.Proofs.TypeStrings
import Iotex.Soundness.Hosts

/-! # Reading the URL of a host

A request's URL is the text of a host and the name of a method. The first slash of such a URL stands
behind the port and the first colon in front of it, whatever the base URL holds, so the parts that are
cut out of it are those that it was made of. Without a connection they are printed into an array that a
long name and a long path do not fit.
-/

namespace Iotex

open Nano33

/-- The path of a method under a base URL. -/
def requestPath (baseUrl method : Bytes) : Bytes :=
  (if baseUrl ≠ [] then ascii "/" ++ baseUrl else []) ++ ascii "/" ++ method

/-! ## Cutting a text -/

theorem indexOf_append {before : Bytes} {char : UInt8} (absent : char ∉ before) (rest : Bytes) :
    indexOf (before ++ char :: rest) char = before.length := by
  have found : (before ++ char :: rest).idxOf? char = some before.length := by
    rw [List.idxOf?_eq_some_iff]
    refine ⟨by simp, by simp, ?_⟩
    intro index earlier
    rw [List.getElem_append_left earlier]
    exact fun same => absent (same ▸ List.getElem_mem earlier)
  rw [indexOf, found]
  rfl

theorem indexOf_ne {before : Bytes} {char : UInt8} (absent : char ∉ before) (rest : Bytes) :
    indexOf (before ++ char :: rest) char ≠ -1 := by
  rw [indexOf_append absent]
  omega

theorem unsignedIndex_natCast {index : ℕ} (bound : index < 2 ^ 32) : unsignedIndex index = index := by
  rw [unsignedIndex]
  omega

/-- The part in front of the first occurrence of a character. -/
theorem substring_before {before : Bytes} {char : UInt8} (absent : char ∉ before) (rest : Bytes)
    (short : before.length < 2 ^ 32) :
    substring (before ++ char :: rest) 0 (indexOf (before ++ char :: rest) char) = before := by
  have start : unsignedIndex 0 = 0 := rfl
  rw [substring, indexOf_append absent, unsignedIndex_natCast short, start, List.drop_zero, List.take_left]

/-- The part from the first occurrence of a character on. -/
theorem substringFrom_first {before : Bytes} {char : UInt8} (absent : char ∉ before) (rest : Bytes)
    (short : before.length < 2 ^ 32) :
    substringFrom (before ++ char :: rest) (indexOf (before ++ char :: rest) char) = char :: rest := by
  rw [substringFrom, indexOf_append absent, unsignedIndex_natCast short, List.drop_left]

/-- The part behind the first occurrence of a character. -/
theorem substringFrom_behind {before : Bytes} {char : UInt8} (absent : char ∉ before) (rest : Bytes)
    (short : before.length + 1 < 2 ^ 32) :
    substringFrom (before ++ char :: rest) (indexOf (before ++ char :: rest) char + 1) = rest := by
  have next : ((before.length : ℤ) + 1) = ((before.length + 1 : ℕ) : ℤ) := by omega
  rw [substringFrom, indexOf_append absent, next, unsignedIndex_natCast short, ← List.drop_drop, List.drop_left]
  rfl

/-! ## Ports -/

theorem not_mem_decimal {char : UInt8} (other : isDigit char = false) (value : ℕ) : char ∉ decimal value := by
  intro member
  rw [isDigit_decimal value char member] at other
  contradiction

/-- A port is read back from its decimal text. -/
theorem atoi_port {port : ℕ} (fits : port ≤ 65535) : atoi (cString (decimal port)) = .ok (port : ℤ) := by
  have read := atoi_digits _ [] (isDigit_decimal port) (decimal_ne_nil port) (by simp) (by simp) (by
    rw [decimalValue_decimal]
    omega)
  rwa [List.append_nil, decimalValue_decimal, ← atoi_cString] at read

/-! ## URLs -/

/-- The members that are read from a host name, a port and a path. -/
theorem readUrl_parts {hostname path : Bytes} {port : ℕ} (noSlash : 47 ∉ hostname) (noColon : 58 ∉ hostname)
    (short : hostname.length ≤ 127) (fits : port ≤ 65535) :
    readUrl (hostname ++ 58 :: (decimal port ++ 47 :: path)) = .ok ⟨hostname, port, 47 :: path⟩ := by
  have digits := decimal_length_le port (show 1 ≤ 5 by omega) (by omega)
  have size : (hostname ++ 58 :: decimal port).length ≤ 133 := by
    rw [List.length_append, List.length_cons]
    omega
  have authority : 47 ∉ hostname ++ 58 :: decimal port := by
    rw [List.mem_append, List.mem_cons, not_or, not_or]
    exact ⟨noSlash, by decide, not_mem_decimal (by decide) port⟩
  have spelled : hostname ++ 58 :: (decimal port ++ 47 :: path) = (hostname ++ 58 :: decimal port) ++ 47 :: path := by
    rw [List.append_assoc, List.cons_append]
  rw [readUrl, spelled, if_pos (indexOf_ne authority path), substring_before authority path (by omega),
    substringFrom_first authority path (by omega), if_pos (indexOf_ne noColon _),
    substringFrom_behind noColon _ (by omega), atoi_port fits, ok_bind, substring_before noColon _ (by omega)]
  rfl

/-- The text about a refused connection fits its array. -/
theorem printFailure_eq {hostname path : Bytes} (port : ℕ) (noNul : 0 ∉ hostname) :
    printFailure ⟨hostname, port, path⟩ =
      if hostname.length + (decimal port).length + (cString path).length ≤ 200 then .ok () else .error .outOfBounds := by
  have digits : formatInt port = decimal port := by
    rw [formatInt, if_neg (by omega), Int.natAbs_natCast, List.nil_append]
  have length : (failureText ⟨hostname, port, path⟩).length =
      hostname.length + (decimal port).length + (cString path).length + 55 := by
    simp [failureText, digits, cString_of_noNul noNul, ascii]
    omega
  rw [printFailure, length]
  split_ifs <;> first | rfl | omega

/-- `initialize` connects to the host that the URL was written for, at its port, and sets the members to
that host, that port and the path of the method. -/
def ReadsHost (connect : Connect) (memory : Host) (hostname : Bytes) (port : ℕ) (baseUrl method : Bytes) : Prop :=
  ∃ host url, memory.set hostname port (some baseUrl) = .ok (true, host) ∧ host.toString = .ok url ∧
    initializeRequest connect (url ++ method) = .ok {
      connected := connect hostname port
      host := hostname
      port := port
      members := ⟨hostname, port, requestPath baseUrl method⟩ }

section

variable {hostname baseUrl : Bytes} {port : ℕ}

/-- The property for a host that accepted the setting and shows a URL. -/
theorem readsHost_iff {connect : Connect} {memory host : Host} {url method : Bytes}
    (accepted : memory.set hostname port (some baseUrl) = .ok (true, host)) (shown : host.toString = .ok url) :
    ReadsHost connect memory hostname port baseUrl method ↔ initializeRequest connect (url ++ method) =
      .ok ⟨connect hostname port, hostname, port, hostname, port, requestPath baseUrl method⟩ := by
  constructor
  · rintro ⟨other, text, same, shows, returned⟩
    obtain ⟨-, rfl⟩ := Prod.mk.inj (Except.ok.inj (accepted.symm.trans same))
    obtain rfl := Except.ok.inj (shown.symm.trans shows)
    exact returned
  · intro returned
    exact ⟨host, url, accepted, shown, returned⟩

/-- The URL is read as it was written, and without a connection the parts are printed. -/
theorem initializeRequest_eq (memory : Host) (method : Bytes)
    (plain : ∀ char ∈ hostname, char ≠ 0 ∧ char ≠ 47 ∧ char ≠ 58) (short : hostname.length ≤ 127)
    (fits : port ≤ 65535) (terminated : 0 ∉ baseUrl) (shortBase : baseUrl.length ≤ 127) :
    ∃ host url, memory.set hostname port (some baseUrl) = .ok (true, host) ∧ host.toString = .ok url ∧
      ∀ connect, initializeRequest connect (url ++ method) =
        if connect hostname port = true ∨
            hostname.length + (decimal port).length + (cString (requestPath baseUrl method)).length ≤ 200 then
          .ok ⟨connect hostname port, hostname, port, hostname, port, requestPath baseUrl method⟩
        else .error .outOfBounds := by
  have noNul : (0 : UInt8) ∉ hostname := fun member => (plain 0 member).1 rfl
  have name := cString_of_noNul noNul
  have base := cString_of_noNul terminated
  let setting : HostSetting := ⟨hostname, port, some baseUrl, by omega⟩
  have passed : Host.rejects hostname (some baseUrl) = false := by
    simp only [Host.rejects, name, base, Option.any_some, Host.ipMaxStringLen, Host.baseurlMaxStringLen,
      Bool.or_eq_false_iff, decide_eq_false_iff_not]
    omega
  obtain ⟨host, accepted, holds⟩ := @apply_accepted setting passed baseUrl rfl memory
  refine ⟨host, setting.text, accepted, holds.shows, ?_⟩
  intro connect
  have spelled : setting.text ++ method = hostname ++ 58 :: (decimal port ++ requestPath baseUrl method) := by
    have url : setting.url = baseUrl := base
    rw [HostSetting.text, url, requestPath]
    change cString hostname ++ [58] ++ decimal port ++ _ ++ [47] ++ method = _
    rw [name]
    simp only [List.append_assoc, List.cons_append, List.nil_append]
    rfl
  obtain ⟨path, starts⟩ : ∃ path, requestPath baseUrl method = 47 :: path := by
    rw [requestPath]
    split_ifs
    · exact ⟨_, rfl⟩
    · exact ⟨_, rfl⟩
  have read := @readUrl_parts hostname path port (fun member => (plain 47 member).2.1 rfl)
    (fun member => (plain 58 member).2.2 rfl) short fits
  rw [initializeRequest, spelled, starts, read, ok_bind]
  dsimp only
  rw [name]
  cases connect hostname port with
  | true => rfl
  | false =>
    rw [Bool.not_false, if_pos rfl, printFailure_eq port noNul]
    by_cases room : hostname.length + (decimal port).length + (cString (47 :: path)).length ≤ 200
    · rw [if_pos room, if_pos (.inr room)]
      rfl
    · rw [if_neg room, if_neg (by simpa using room)]
      rfl

/-- The URL of a method of a host is read as the host's name and port and the path of the method exactly
when the connection is made or the parts fit the text about its failure. -/
theorem initializeRequest_readsHost_iff (connect : Connect) (memory : Host) (method : Bytes)
    (plain : ∀ char ∈ hostname, char ≠ 0 ∧ char ≠ 47 ∧ char ≠ 58) (short : hostname.length ≤ 127)
    (fits : port ≤ 65535) (terminated : 0 ∉ baseUrl) (shortBase : baseUrl.length ≤ 127) :
    ReadsHost connect memory hostname port baseUrl method ↔
      connect hostname port = true ∨
        hostname.length + (decimal port).length + (cString (requestPath baseUrl method)).length ≤ 200 := by
  obtain ⟨host, url, accepted, shown, ran⟩ := initializeRequest_eq memory method plain short fits terminated shortBase
  rw [readsHost_iff accepted shown, ran]
  split_ifs with inside
  · exact iff_of_true rfl inside
  · exact iff_of_false (by simp) inside

end

/-- A base URL with both separators, and a host that refuses the connection. -/
theorem getAccount_readsHost :
    ReadsHost (fun _ _ => false) noisyMemory (ascii "gateway.iotexlab.io") 10000 (ascii "v1:2/api")
      (ascii "GetAccount") :=
  (initializeRequest_readsHost_iff (fun _ _ => false) noisyMemory (ascii "GetAccount") (by simp [ascii]) (by decide)
    (by decide) (by decide) (by decide)).mpr (.inr (by decide))

namespace LongHost

def hostname : Bytes := List.replicate 127 97

def baseUrl : Bytes := List.replicate 127 98

end LongHost

/-- The longest name and the longest base URL are printed behind the end of the array. -/
theorem longHost_refused :
    (∃ host url, noisyMemory.set LongHost.hostname (10000 : ℕ) (some LongHost.baseUrl) = .ok (true, host) ∧
      host.toString = .ok url ∧
      initializeRequest (fun _ _ => false) (url ++ ascii "GetAccount") = .error .outOfBounds) ∧
      ¬ReadsHost (fun _ _ => false) noisyMemory LongHost.hostname 10000 LongHost.baseUrl (ascii "GetAccount") := by
  obtain ⟨host, url, accepted, shown, ran⟩ := @initializeRequest_eq LongHost.hostname LongHost.baseUrl 10000 noisyMemory
    (ascii "GetAccount") (by simp [LongHost.hostname]) (by decide +kernel) (by decide) (by simp [LongHost.baseUrl])
    (by decide +kernel)
  have outside : initializeRequest (fun _ _ => false) (url ++ ascii "GetAccount") = .error .outOfBounds := by
    rw [ran, if_neg (by decide +kernel)]
  refine ⟨⟨host, url, accepted, shown, outside⟩, ?_⟩
  rw [readsHost_iff accepted shown, outside]
  exact fun same => by cases same

end Iotex
