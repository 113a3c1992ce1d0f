import Iotex.Lib.Runs
import Iotex.Model.Http

/-! # Header streams

What the header callback makes of any stream of header lines, each of them ended by CR LF, and what a
post reports. The array for the code has one element, so a line with a status is written outside of
it; shorter lines than the names that they are compared with are read outside; and without a status
the code is the one in memory.
-/

namespace Iotex

open Runs PlatformHTTP

/-! ## What the headers say -/

/-- Any bytes and CR LF. -/
def HeaderLine (line : Bytes) : Prop := ∃ text, line = text ++ [13, 10]

/-- The code of a status line: one or two digits behind optional spaces, and otherwise `UNKNOWN`. -/
def statusCode? (line : Bytes) : Option ℤ :=
  if statusNeedle.isPrefixOf line then
    let value := ((line.drop statusNeedle.length).dropWhile (· == 32)).dropLast.dropLast
    if (value.length = 1 ∨ value.length = 2) ∧ value.all isDigit then some (decimalValue value) else some grpcUNKNOWN
  else none

/-- The code of the last status line. -/
def lastStatus? (lines : List Bytes) : Option ℤ := (lines.filterMap statusCode?).getLast?

/-- The header lines of a transfer. -/
def headerLines (events : List CurlEvent) : List Bytes :=
  events.filterMap fun
    | .header line => some line
    | .body _ => none

/-- The lines are processed inside of all arrays, and the code is that of the last status line. -/
def CallbackReads (lines : List Bytes) : Prop :=
  ∀ status, ∃ left, lines.foldlM headerCallback status = .ok left ∧ left.code = (lastStatus? lines).getD status.code

/-- A post returns, with a success exactly when the transfer succeeded and its status is zero. -/
def PostReads (curl : Curl) (request body : Bytes) : Prop :=
  ∀ memory response, ∃ ret left, post curl memory request body response = .ok (ret, left) ∧
    (ret = .success ↔ ∃ transfer, curl request body = some transfer ∧ transfer.completed = true ∧
      lastStatus? (headerLines transfer.events) = some grpcOK)

/-- A line without a status that is as long as the names it is compared with. -/
def LongOther (line : Bytes) : Prop := statusNeedle.isPrefixOf line = false ∧ messageNeedle.length ≤ line.length

/-! ## One line -/

theorem needle_lengths : statusNeedle.length = 12 ∧ messageNeedle.length = 13 := by decide

theorem memcmpEqual_of_le {contents literal : Bytes} (inside : literal.length ≤ contents.length) :
    memcmpEqual contents literal = .ok (literal.isPrefixOf contents) := by
  rw [memcmpEqual, readFirst_of_le inside, ok_bind, pure_eq_ok, Except.ok.injEq, Bool.eq_iff_iff, decide_eq_true_eq,
    List.isPrefixOf_iff_prefix, List.prefix_iff_eq_take, eq_comm]

/-- Other lines leave the code alone. -/
theorem headerCallback_longOther {line : Bytes} (other : LongOther line) (status : GrpcStatus) :
    ∃ left, headerCallback status line = .ok left ∧ left.code = status.code := by
  obtain ⟨unnamed, long⟩ := other
  obtain ⟨shorter, -⟩ := needle_lengths
  have first : statusNeedle.length ≤ line.length := by
    rw [needle_lengths.2] at long
    omega
  rw [headerCallback, memcmpEqual_of_le first, ok_bind, unnamed, if_neg Bool.false_ne_true,
    memcmpEqual_of_le long, ok_bind]
  split_ifs
  · exact ⟨_, rfl, rfl⟩
  · exact ⟨_, rfl, rfl⟩

theorem memcmpEqual_of_lt {contents literal : Bytes} (short : contents.length < literal.length) :
    memcmpEqual contents literal = .error .outOfBounds := by
  rw [memcmpEqual, readFirst, if_neg (Nat.not_le.mpr short), error_bind]

/-- Behind the name of a status line there are at least CR and LF. -/
theorem statusLine_rest {rest : Bytes} (header : HeaderLine (statusNeedle ++ rest)) : 2 ≤ rest.length := by
  obtain ⟨text, ends⟩ := header
  have reversed := congrArg List.reverse ends
  rw [List.reverse_append, List.reverse_append] at reversed
  rcases rest with _ | ⟨first, _ | ⟨second, rest⟩⟩
  · exact absurd (List.cons.inj reversed).1 (by decide)
  · exact absurd (List.cons.inj (List.cons.inj reversed).2).1 (by decide)
  · simp

/-- A status line does not fit the array for its code. -/
theorem headerCallback_status {line : Bytes} (header : HeaderLine line) (named : statusNeedle.isPrefixOf line = true)
    (status : GrpcStatus) : headerCallback status line = .error .outOfBounds := by
  obtain ⟨rest, rfl⟩ := List.isPrefixOf_iff_prefix.mp named
  have two := statusLine_rest header
  have code : ¬(rest.take 2).length ≤ 1 := by
    rw [List.length_take]
    omega
  rw [headerCallback, memcmpEqual_of_le (List.prefix_append _ _).length_le, ok_bind, named, if_pos rfl, List.drop_left,
    copyCode, if_neg code, error_bind]

/-- The comparisons leave a line that is shorter than the names. -/
theorem headerCallback_short {line : Bytes} (unnamed : statusNeedle.isPrefixOf line = false)
    (short : line.length < messageNeedle.length) (status : GrpcStatus) :
    headerCallback status line = .error .outOfBounds := by
  rw [headerCallback]
  by_cases inside : statusNeedle.length ≤ line.length
  · rw [memcmpEqual_of_le inside, ok_bind, unnamed, if_neg Bool.false_ne_true, memcmpEqual_of_lt short, error_bind]
  · rw [memcmpEqual_of_lt (Nat.not_le.mp inside), error_bind]

/-- Every other line is written or read outside of an array. -/
theorem headerCallback_outside {line : Bytes} (header : HeaderLine line) (bad : ¬LongOther line) (status : GrpcStatus) :
    headerCallback status line = .error .outOfBounds := by
  cases named : statusNeedle.isPrefixOf line with
  | true => exact headerCallback_status header named status
  | false =>
    apply headerCallback_short named
    by_contra long
    exact bad ⟨named, Nat.not_lt.mp long⟩

/-! ## Streams -/

/-- Lines without a status give none. -/
theorem lastStatus?_longOther {lines : List Bytes} (others : ∀ line ∈ lines, LongOther line) :
    lastStatus? lines = none := by
  have nothing : lines.filterMap statusCode? = [] := by
    rw [List.filterMap_eq_nil_iff]
    intro line member
    rw [statusCode?, (others line member).1, if_neg Bool.false_ne_true]
  rw [lastStatus?, nothing]
  rfl

/-- A stream is read correctly exactly when it has no status line and no short line. -/
theorem callbackReads_iff {lines : List Bytes} (headers : ∀ line ∈ lines, HeaderLine line) :
    CallbackReads lines ↔ ∀ line ∈ lines, LongOther line := by
  constructor
  · intro reads line member
    by_contra bad
    obtain ⟨left, processed, -⟩ := reads { code := grpcOK }
    obtain ⟨fault, failed⟩ := @foldlM_fails _ _ lines _ headerCallback { code := grpcOK } line member
      fun status => ⟨_, headerCallback_outside (headers line member) bad status⟩
    simp [failed] at processed
  · intro others status
    rw [lastStatus?_longOther others]
    exact foldlM_passes fun line member status => headerCallback_longOther (others line member) status

/-! ## Posts -/

theorem mem_headerLines {events : List CurlEvent} {line : Bytes} :
    line ∈ headerLines events ↔ .header line ∈ events := by
  rw [headerLines, List.mem_filterMap]
  constructor
  · rintro ⟨event, member, same⟩
    cases event with
    | header other => exact Option.some.inj same ▸ member
    | body contents => simp at same
  · intro member
    exact ⟨_, member, rfl⟩

/-- The events of a transfer are delivered with the code left alone exactly when its headers allow it. -/
theorem deliver_passes {events : List CurlEvent} (others : ∀ line ∈ headerLines events, LongOther line)
    (objects : GrpcStatus × Bytes) :
    ∃ left, events.foldlM deliver objects = .ok left ∧ left.1.code = objects.1.code := by
  refine @foldlM_passes _ _ events _ _ deliver objects (fun objects => objects.1.code) ?_
  intro event member objects
  cases event with
  | header line =>
    obtain ⟨left, processed, same⟩ := headerCallback_longOther (others line (mem_headerLines.mpr member)) objects.1
    refine ⟨(left, objects.2), ?_, same⟩
    rw [deliver, processed, ok_bind, pure_eq_ok]
  | body contents => exact ⟨_, rfl, rfl⟩

theorem deliver_fails {events : List CurlEvent} {line : Bytes} (member : line ∈ headerLines events)
    (header : HeaderLine line) (bad : ¬LongOther line) (objects : GrpcStatus × Bytes) :
    ∃ fault, events.foldlM deliver objects = .error fault := by
  apply foldlM_fails (mem_headerLines.mp member)
  intro objects
  refine ⟨.outOfBounds, ?_⟩
  rw [deliver, headerCallback_outside header bad, error_bind]

/-- A transfer without a status line leaves the code of the memory. -/
theorem post_passes {curl : Curl} {request body : Bytes} {transfer : CurlTransfer}
    (started : curl request body = some transfer) (others : ∀ line ∈ headerLines transfer.events, LongOther line)
    (memory : ℤ) (response : Bytes) :
    ∃ left, post curl memory request body response =
      .ok (if transfer.completed = false then .errorHttp else verdict { code := memory }, left) := by
  obtain ⟨⟨status, left⟩, delivered, code⟩ := deliver_passes others ({ code := memory }, response)
  have same : status.code = memory := code
  refine ⟨left, ?_⟩
  simp only [post, started, delivered, ok_bind, verdict, same, pure_eq_ok]
  split_ifs <;> rfl

/-- A post over any other headers is not defined. -/
theorem post_fails {curl : Curl} {request body : Bytes} {transfer : CurlTransfer}
    (started : curl request body = some transfer) {line : Bytes} (member : line ∈ headerLines transfer.events)
    (header : HeaderLine line) (bad : ¬LongOther line) (memory : ℤ) (response : Bytes) :
    ∃ fault, post curl memory request body response = .error fault := by
  obtain ⟨fault, failed⟩ := deliver_fails member header bad ({ code := memory }, response)
  refine ⟨fault, ?_⟩
  simp only [post, started, failed, error_bind]

/-- A post reports what it should exactly when the transfer fails, over headers that are read. -/
theorem postReads_iff {curl : Curl} {request body : Bytes}
    (headers : ∀ transfer, curl request body = some transfer → ∀ line ∈ headerLines transfer.events, HeaderLine line) :
    PostReads curl request body ↔ ∃ transfer, curl request body = some transfer ∧ transfer.completed = false ∧
      ∀ line ∈ headerLines transfer.events, LongOther line := by
  constructor
  · intro reads
    obtain ⟨ret, left, posted, success⟩ := reads grpcOK []
    cases started : curl request body with
    | none =>
      -- without a handle the code in memory decides
      simp only [post, started, Except.ok.injEq, Prod.mk.injEq] at posted
      have reported : ret = .success := posted.1.symm
      obtain ⟨transfer, given, -⟩ := success.mp reported
      simp [started] at given
    | some transfer =>
      have others : ∀ line ∈ headerLines transfer.events, LongOther line := by
        intro line member
        by_contra bad
        obtain ⟨fault, failed⟩ := post_fails started member (headers transfer started line member) bad grpcOK []
        simp [failed] at posted
      refine ⟨transfer, rfl, ?_, others⟩
      by_contra completed
      obtain ⟨left', passed⟩ := post_passes started others grpcOK []
      rw [posted, if_neg completed, Except.ok.injEq, Prod.mk.injEq] at passed
      obtain ⟨other, given, -, last⟩ := success.mp passed.1
      obtain rfl : transfer = other := Option.some.inj (started.symm.trans given)
      simp [lastStatus?_longOther others] at last
  · rintro ⟨transfer, started, failed, others⟩ memory response
    obtain ⟨left, passed⟩ := post_passes started others memory response
    rw [if_pos failed] at passed
    refine ⟨.errorHttp, left, passed, ?_⟩
    simp [started, failed]

/-- The callback reads a stream correctly exactly when all of its lines are long enough and none has a
status; a post reports what it should exactly when such a transfer was started and fails. -/
theorem headers_read_iff {lines : List Bytes} (headers : ∀ line ∈ lines, HeaderLine line) {curl : Curl}
    {request body : Bytes}
    (replied : ∀ transfer, curl request body = some transfer → ∀ line ∈ headerLines transfer.events, HeaderLine line) :
    (CallbackReads lines ↔ ∀ line ∈ lines, LongOther line) ∧
      (PostReads curl request body ↔ ∃ transfer, curl request body = some transfer ∧ transfer.completed = false ∧
        ∀ line ∈ headerLines transfer.events, LongOther line) :=
  ⟨callbackReads_iff headers, postReads_iff replied⟩

namespace Replies

def contentType : Bytes := ascii "content-type: application/json\r\n"

def statusLine : Bytes := ascii "grpc-status: 0\r\n"

/-- A transfer with one header, which completes without a status or fails. -/
def reply (completed : Bool) : Curl := fun _ _ => some ⟨[.header contentType], completed⟩

theorem headerLine_contentType : HeaderLine contentType := ⟨ascii "content-type: application/json", rfl⟩

theorem longOther_contentType : LongOther contentType := by
  constructor <;> decide

end Replies

open Replies

theorem failedReply_read : CallbackReads [contentType] ∧ PostReads (reply false) [] [] := by
  have headers : ∀ line ∈ [contentType], HeaderLine line := by simp [headerLine_contentType]
  have replied : ∀ transfer, reply false [] [] = some transfer →
      ∀ line ∈ headerLines transfer.events, HeaderLine line := by
    intro transfer started
    obtain rfl := Option.some.inj started
    exact headers
  obtain ⟨callback, post⟩ := headers_read_iff headers replied
  refine ⟨callback.mpr ?_, post.mpr ⟨_, rfl, rfl, ?_⟩⟩
  · simp [longOther_contentType]
  · simp [headerLines, longOther_contentType]

/-- A status line is written outside of the array for its code, and a transfer without a status is a
success when the memory of the status object happens to hold a zero. -/
theorem statusLine_outside :
    (∀ status, headerCallback status statusLine = .error .outOfBounds) ∧ ¬CallbackReads [statusLine] ∧
      (∀ request body response, post (reply true) 0 request body response = .ok (.success, response)) ∧
      ¬PostReads (reply true) [] [] := by
  have outside : ∀ status, headerCallback status statusLine = .error .outOfBounds :=
    headerCallback_status ⟨ascii "grpc-status: 0", rfl⟩ (by decide)
  have silent : ∀ request body response, post (reply true) 0 request body response = .ok (.success, response) := by
    intro request body response
    obtain ⟨left, processed, code⟩ := headerCallback_longOther longOther_contentType { code := 0 }
    have zero : left.code = grpcOK := code
    simp [post, reply, deliver, processed, verdict, zero]
  refine ⟨outside, ?_, silent, ?_⟩
  · intro reads
    obtain ⟨left, processed, -⟩ := reads { code := grpcOK }
    simp [outside] at processed
  · intro reads
    obtain ⟨ret, left, posted, success⟩ := reads 0 []
    rw [silent, Except.ok.injEq, Prod.mk.injEq] at posted
    obtain ⟨transfer, started, -, last⟩ := success.mp posted.1.symm
    obtain rfl := Option.some.inj started
    have nothing : lastStatus? (headerLines [.header contentType]) = none :=
      lastStatus?_longOther (by simp [headerLines, longOther_contentType])
    rw [nothing] at last
    simp at last

end Iotex
