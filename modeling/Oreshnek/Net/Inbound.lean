import Oreshnek.Http.Framing

/-!
# The read side of a connection

`parse_next`, `consume` and the taking of an owned request, on the filled part
of the read buffer. `drain` repeats them until no further request is complete,
as the event loop does from one response to the next.
-/

namespace Oreshnek

structure Inbound where
  /-- `read_buffer_[0, read_buffer_fill_)`. -/
  readBuffer : Bytes := []
  httpParser : HttpParser := {}
  currentRequest : HttpRequest := {}
deriving DecidableEq

namespace Inbound

/-- What a run of the parser leaves in the connection. -/
def ofResult (r : ParseResult) : Inbound :=
  { readBuffer := r.buffer, httpParser := r.parser, currentRequest := r.request }

/-- `parse_next`: the answer, `consumed`, and the connection. An empty buffer
leaves the parser as it was. -/
def parseNext (c : Inbound) : Option (Bool × Nat × Inbound) :=
  if c.readBuffer = [] then some (false, 0, c)
  else
    match parseRequest c.httpParser.reset c.readBuffer {} with
    | none => none
    | some r =>
        if r.parser.state = .error then some (false, r.bytesProcessed, ofResult r)
        else some (r.isComplete, r.bytesProcessed, ofResult r)

/-- `parser_failed`. -/
def parserFailed (c : Inbound) : Bool := c.httpParser.state = .error

/-- `consume`. -/
def consume (c : Inbound) (n : Nat) : Inbound :=
  if n = 0 then c
  else if c.readBuffer.length ≤ n then { c with readBuffer := [] }
  else { c with readBuffer := c.readBuffer.drop n }

/-- The owning copy `dispatch_next` takes of a complete request. -/
def ownedRequest (c : Inbound) (consumed : Nat) : HttpRequest :=
  c.currentRequest.makeOwned c.readBuffer consumed

/-- Bytes arrive behind the buffer. -/
def receive (c : Inbound) (r : Bytes) : Inbound := { c with readBuffer := c.readBuffer ++ r }

/-- `consume` drops bytes from the front, whichever way it does it. -/
theorem consume_eq (c : Inbound) (n : Nat) :
    c.consume n = { c with readBuffer := c.readBuffer.drop n } := by
  unfold consume
  split
  case isTrue h => rw [h, List.drop_zero]
  case isFalse =>
    split
    case isTrue h => rw [List.drop_eq_nil_of_le h]
    case isFalse => rfl

@[simp] theorem consume_buffer (c : Inbound) (n : Nat) :
    (c.consume n).readBuffer = c.readBuffer.drop n := by
  rw [consume_eq]

end Inbound

/-! ## Draining the buffer -/

/-- What a run of the parser leaves of the buffer: its size, its bytes unless a
request is complete, and then some bytes fewer to read. -/
theorem parseRequest_consumed {raw : Bytes} {r : ParseResult}
    (h : parseRequest {} raw {} = some r) :
    r.buffer.length = raw.length ∧ (r.parser.state ≠ .complete → r.buffer = raw) ∧
      (r.isComplete → 0 < r.bytesProcessed ∧ r.bytesProcessed ≤ raw.length) := by
  rw [parseRequest_eq] at h
  split at h
  · cases h
    exact ⟨rfl, fun _ => rfl, fun hc => by cases hc⟩
  rw [Option.map_eq_some_iff] at h
  obtain ⟨⟨n, c'⟩, hphase, rfl⟩ := h
  obtain ⟨hcons, hlt⟩ := requestLinePhase_consumed (Cursor.start_aligned raw) rfl rfl hphase
  refine ⟨hcons.size, hcons.same, fun hc => ?_⟩
  have hstate : c'.parser.state = .complete := by simpa [ParseResult.isComplete] using hc
  have hlen := hcons.aligned.length
  have hbytes : n = c'.data.pos := hcons.bytes (by rw [hstate]; exact ParsingState.noConfusion)
  have hbuf : c'.buffer.length = raw.length := hcons.size
  have hlt' : c'.data.length < raw.length := hlt hstate
  dsimp only
  omega

namespace Inbound

/-- A request that is found is what the parser makes of the buffer from its start. -/
theorem parseNext_true {c c' : Inbound} {n : Nat} (h : c.parseNext = some (true, n, c')) :
    ∃ r, parseRequest {} c.readBuffer {} = some r ∧ r.isComplete ∧ n = r.bytesProcessed ∧
      c' = ofResult r := by
  unfold parseNext at h
  split at h
  · cases h
  cases hr : parseRequest c.httpParser.reset c.readBuffer {} with
  | none =>
      rw [hr] at h
      cases h
  | some r =>
      rw [hr] at h
      dsimp only at h
      split at h
      · cases h
      · have hx := Option.some.inj h
        have hcomplete : r.isComplete = true := congrArg Prod.fst hx
        rw [hcomplete] at hx
        cases hx
        exact ⟨r, hr, hcomplete, rfl, rfl⟩

/-- A request that is taken makes the buffer shorter. -/
theorem parseNext_shrinks {c c' : Inbound} {n : Nat} (h : c.parseNext = some (true, n, c')) :
    (c'.consume n).readBuffer.length < c.readBuffer.length := by
  obtain ⟨r, hr, hc, rfl, rfl⟩ := parseNext_true h
  obtain ⟨hbuf, -, hbytes⟩ := parseRequest_consumed hr
  obtain ⟨hpos, hle⟩ := hbytes hc
  have hsize : (ofResult r).readBuffer.length = c.readBuffer.length := hbuf
  rw [consume_buffer, List.length_drop]
  omega

/-- Repeated `parse_next`, owning copy and `consume` until no further request is
complete (`none`: undefined behaviour on the way). -/
def drain (c : Inbound) : Option (List HttpRequest × Inbound) :=
  match h : c.parseNext with
  | none => none
  | some (false, _, c') => some ([], c')
  | some (true, consumed, c') =>
      (drain (c'.consume consumed)).map fun x => (c'.ownedRequest consumed :: x.1, x.2)
termination_by c.readBuffer.length
decreasing_by exact parseNext_shrinks h

/-- When the parser does not end, nothing is drained. -/
theorem drain_none {c : Inbound} (h : c.parseNext = none) : c.drain = none := by
  rw [drain]
  split
  case h_1 => rfl
  case h_2 h' =>
    rw [h] at h'
    cases h'
  case h_3 h' =>
    rw [h] at h'
    cases h'

/-- With an incomplete request nothing more is taken. -/
theorem drain_stop {c c' : Inbound} {n : Nat} (h : c.parseNext = some (false, n, c')) :
    c.drain = some ([], c') := by
  rw [drain]
  split
  case h_1 h' =>
    rw [h] at h'
    cases h'
  case h_2 h' =>
    rw [h] at h'
    cases h'
    rfl
  case h_3 h' =>
    rw [h] at h'
    cases h'

/-- A complete request comes first in what the buffer holds. -/
theorem drain_request {c c' : Inbound} {n : Nat} (h : c.parseNext = some (true, n, c')) :
    c.drain = ((c'.consume n).drain).map fun x => (c'.ownedRequest n :: x.1, x.2) := by
  rw [drain]
  split
  case h_1 h' =>
    rw [h] at h'
    cases h'
  case h_2 h' =>
    rw [h] at h'
    cases h'
  case h_3 h' =>
    rw [h] at h'
    cases h'
    rfl

/-- Reads arrive one after the other, each followed by a drain; an error ends the
connection. -/
def feed (c : Inbound) : List Bytes → Option (List HttpRequest × Inbound)
  | [] => some ([], c)
  | r :: rs =>
      match (c.receive r).drain with
      | none => none
      | some (reqs, c') =>
          if c'.parserFailed then some (reqs, c')
          else (c'.feed rs).map fun x => (reqs ++ x.1, x.2)

end Inbound

end Oreshnek
