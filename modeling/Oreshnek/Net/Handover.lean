import Oreshnek.Http.Storage
import Oreshnek.Net.Inbound

/-!
# A request handed to a worker

The views of a complete request lie in the bytes the parser has consumed. The
owning copy takes these bytes, so the request says the same after it, and goes on
to say it when the read buffer is moved by `consume` and filled by the next
`recv` (`handed_over_keeps`).
-/

namespace Oreshnek

open Blocks

/-- The stored request says in this memory what the parsed one says. -/
structure Says (m : Memory Block UInt8) (o : StoredRequest) (r : HttpRequest) : Prop where
  method : o.method = r.method
  path : o.path.read m = some r.path.bytes
  version : o.version.read m = some r.version.bytes
  body : o.body.read m = some r.body.bytes
  header : ∀ name, o.header m name = ((r.header name).map (·.bytes)).map some
  query : ∀ name, o.query m name = ((r.query name).map (·.bytes)).map some

/-- A request whose views are shown says the same from memory. -/
theorem RequestShown.says {mem : Bytes} {limit : Nat} {r : HttpRequest}
    (h : RequestShown mem limit r) {len : Nat} {m : Memory Block UInt8} {o : StoredRequest}
    (hreads : Reads m o (h.value len)) : Says m o r where
  method := hreads.method
  path := hreads.path
  version := hreads.version
  body := hreads.body
  header := by
    intro name
    rw [hreads.header]
    exact congrArg (Option.map some) (h.headers.entryOf_texts name)
  query := by
    intro name
    rw [hreads.query]
    exact congrArg (Option.map some) (h.queryParams.entryOf_texts name)

/-- **A complete request can be handed over.** Its views lie in the bytes consumed
and show what stands there. In a memory with that read buffer the owned request
says what the parsed one said, and it does so in every later memory in which the
block of its own string is as it was. -/
theorem handed_over_keeps {raw : Bytes} {r : ParseResult} (h : parseRequest {} raw {} = some r)
    (hc : r.isComplete) :
    RequestShown r.buffer r.bytesProcessed r.request ∧ r.bytesProcessed ≤ r.buffer.length ∧
      ∀ (m : Memory Block UInt8) (object : Nat) (place : Block), m .buffer = some r.buffer →
        Says m (r.request.stored object) r.request ∧
          ∀ later : Memory Block UInt8,
            later place = ((r.request.stored object).makeOwned m .buffer r.bytesProcessed place).1
              place →
            Says later ((r.request.stored object).makeOwned m .buffer r.bytesProcessed place).2
              r.request := by
  -- the views lie in front of the first unread byte
  have hshown := parseRequest_shown h hc
  rcases parseRequest_consumed h with ⟨hsize, -, hdone⟩
  have hle : r.bytesProcessed ≤ r.buffer.length := by
    rw [hsize]
    exact (hdone hc).2
  refine ⟨hshown, hle, ?_⟩
  intro m object place hm
  constructor
  · -- before: the views are read from the read buffer
    apply hshown.says
    apply (hshown.represents hle object).reads
    rw [hm]
    exact congrArg some (List.take_length).symm
  · -- after: from the string the request owns
    intro later hlater
    rcases hshown.makeOwned (Nat.le_refl _) hm object place with ⟨hrep, hplace⟩
    apply hshown.says
    apply hrep.reads
    rw [hlater]
    exact hplace

/-- A request with a query, a header and a body. -/
def uploadRequest : Bytes := lit "POST /up?id=7 HTTP/1.1\r\nContent-Length: 2\r\n\r\nhi"

/-- The body is still there when the next bytes are in the buffer. -/
theorem handed_over_keeps_upload :
    ∃ r, parseRequest {} uploadRequest {} = some r ∧
      ∀ later : Memory Block UInt8,
        later (.heap 1) = some (uploadRequest.take r.bytesProcessed) → later .buffer = some (lit "GET") →
        ((r.request.stored 0).makeOwned (fun b => if b = .buffer then some r.buffer else none)
          .buffer r.bytesProcessed (.heap 1)).2.body.read later = some (lit "hi") := by
  have hrun : (parseRequest {} uploadRequest {}).map
      (fun r => (r.isComplete, r.buffer, r.request.body.bytes)) =
        some (true, uploadRequest, lit "hi") := by
    decide +kernel
  rcases Option.map_eq_some_iff.1 hrun with ⟨r, hr, heq⟩
  simp only [Prod.mk.injEq] at heq
  rcases heq with ⟨hcomplete, hbuffer, hbody⟩
  rcases handed_over_keeps hr hcomplete with ⟨-, -, hkeeps⟩
  refine ⟨r, hr, ?_⟩
  intro later hheap hnext
  rcases hkeeps (fun b => if b = .buffer then some r.buffer else none) 0 (.heap 1) rfl with
    ⟨-, hafter⟩
  rw [← hbody]
  refine (hafter later ?_).body
  rw [hheap, ← hbuffer]
  rfl

end Oreshnek
