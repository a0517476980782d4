import DeviceHttp.Proofs.Transfer.ChunkGrammar
import DeviceHttp.Proofs.Transfer.Reading

/-!
# Decoding a chunked body

What the grammar says of a stream is what an exchange does with it, whatever part of the stream is in
the window already and however the rest arrives: a body in chunks is handed over and its end is
marked, and anything else is an error without a mark. Both are read off the feed; its outline says
which bytes went to the sink, and here it is turned into the calls themselves.
-/

namespace DeviceHttp.Exchange

open Window (crlf)

/-- The sink was handed a body in slices, and called with `tail` after that. -/
def Hands (x y : Exchange) (body : Bytes) (tail : List Delivery) : Prop :=
  ∃ calls, Slices calls body ∧ deliveries y.trace = deliveries x.trace ++ calls ++ tail

/-- An outcome whose outline grew by a body and the mark of its end, or by a body alone, has handed
over slices of that body, none of them empty. -/
theorem hands_of_outline {x y : Exchange} {body : Bytes} {tail : List Delivery}
    (htail : tail = [] ∨ tail = [.write []]) (hadds : Adds Event.IsTransfer x y)
    (houtline : outline y.trace = outline x.trace ++ bytewise body ++ tail.map .deliver) :
    Hands x y body tail := by
  rcases hadds with ⟨new, htrace, -⟩
  rw [htrace, outline_append, List.append_assoc] at houtline
  have hnew : outline new = bytewise body ++ tail.map .deliver := List.append_cancel_left houtline
  have hmark : tail.map Event.deliver = [] ∨ tail.map Event.deliver = [.deliver (.write [])] := by
    rcases htail with rfl | rfl
    · exact .inl rfl
    · exact .inr rfl
  obtain ⟨calls, hcalls, hdeliveries⟩ := slices_of_outline hmark hnew
  refine ⟨calls, hcalls, ?_⟩
  have hback : deliveries (tail.map .deliver) = tail := by
    rcases htail with rfl | rfl <;> rfl
  rw [htrace, deliveries_append, hdeliveries, hback, List.append_assoc]

/-- A stream in the grammar is decoded from any exchange, however it is cut: the sink has the data
of the chunks and then the end of the body, and what stands behind the body is not consumed. -/
theorem readBody_of_accepts {x : Exchange} {chunks : List Chunk} {rest : Bytes}
    (hx : x.peer.Steady)
    (h : Chunk.Accepts x.window.capacity (x.window.pending ++ x.peer.stream) chunks rest) :
    ∃ y, x.readBody .chunked = .ok () y ∧ y.window.pending ++ y.peer.stream = rest ∧
      Hands x y (Chunk.body chunks) [.write []] := by
  have hshows := shows_readChunks hx
  rw [Feed.readChunks_of_accepts (f := x.feed) h] at hshows
  have hadds := adds_readChunks x
  cases hy : x.readChunks with
  | error e y =>
    rw [hy] at hshows
    rcases hshows.of_error with ⟨f, hf, -⟩
    cases hf
  | ok u y =>
    rw [hy] at hshows hadds
    rcases EStateM.Result.ok.inj hshows.of_ok.1 with ⟨-, hfeed⟩
    refine ⟨y, hy, (congrArg Feed.bytes hfeed).symm, hands_of_outline (.inr rfl) hadds ?_⟩
    exact (congrArg (·.outline) hfeed).symm

/-- A stream outside of the grammar is an error, after the sink has got the data in front of the
fault. It is not told that the body has ended. -/
theorem readBody_of_rejects {x : Exchange} {chunks : List Chunk} {part : Bytes}
    {e : TransferError} (hx : x.peer.Steady)
    (h : Chunk.Rejects x.window.capacity x.peer.ending (x.window.pending ++ x.peer.stream) chunks
      part e) :
    ∃ y, x.readBody .chunked = .error e y ∧ Hands x y (Chunk.body chunks ++ part) [] := by
  have hshows := shows_readChunks hx
  obtain ⟨f, hf, htold⟩ := Feed.readChunks_of_rejects (f := x.feed) h
  rw [hf] at hshows
  have hadds := adds_readChunks x
  cases hy : x.readChunks with
  | ok u y =>
    rw [hy] at hshows
    cases hshows.of_ok.1
  | error e' y =>
    rw [hy] at hshows hadds
    rcases hshows.of_error with ⟨g, hg, hrecord⟩
    rcases EStateM.Result.error.inj hg with ⟨rfl, rfl⟩
    refine ⟨y, hy, hands_of_outline (.inl rfl) hadds ?_⟩
    rw [List.map_nil, List.append_nil]
    exact congrArg Record.outline (hrecord.trans htold)

/-- Decoding inverts encoding, for every split into chunks, every spelling of their sizes and every
way in which the stream arrives. What follows the body is left unread. -/
theorem readBody_inverts_chunks {x : Exchange} {chunks : List Chunk} {last after : Bytes}
    (hx : x.peer.Steady) (hchunks : ∀ c ∈ chunks, c.Valid x.window.capacity)
    (hlast : Chunk.EndLine x.window.capacity last)
    (hstream : x.window.pending ++ x.peer.stream
      = Chunk.stream chunks ++ last ++ crlf ++ after) :
    ∃ y calls, x.readBody .chunked = .ok () y ∧ Slices calls (Chunk.body chunks) ∧
      deliveries y.trace = deliveries x.trace ++ calls ++ [.write []] ∧
      y.window.pending ++ y.peer.stream = after := by
  obtain ⟨y, hy, hrest, calls, hcalls, hdeliveries⟩ :=
    readBody_of_accepts hx ⟨hchunks, last, hlast, hstream⟩
  exact ⟨y, calls, hy, hcalls, hdeliveries, hrest⟩

/-- One chunk with an extension, with cuts inside its size line, its data and both line ends. The
start of the next response stays in the stream. -/
theorem readBody_inverts_chunk_in_pieces :
    ∃ y calls,
      ((Client.new 16).startExchange (.sending [Utf8.ofString "2;x", Utf8.ofString "y\r",
        Utf8.ofString "\n\r\n\r", Utf8.ofString "\n0\r\nHTTP"]) none 1000).readBody .chunked
          = .ok () y ∧
        Slices calls (Chunk.body [⟨Utf8.ofString "2;xy", crlf⟩]) ∧
        deliveries y.trace = deliveries [] ++ calls ++ [.write []] ∧
        y.window.pending ++ y.peer.stream = Utf8.ofString "HTTP" := by
  have hchunk : Chunk.Valid 16 ⟨Utf8.ofString "2;xy", crlf⟩ :=
    { fits := Window.holdsLine_of_not_mem (by decide) (by decide)
      size := Chunk.parseSize_eq_ok_iff.1 rfl
      nonEmpty := by decide }
  have hlast : Chunk.EndLine 16 (Utf8.ofString "0") :=
    { fits := Window.holdsLine_of_not_mem (by decide) (by decide)
      size := Chunk.parseSize_eq_ok_iff.1 rfl }
  exact readBody_inverts_chunks (Peer.steady_sending (by decide))
    (List.forall_mem_singleton.2 hchunk) hlast (by decide +kernel)

/-- Decoding accepts the grammar and nothing else. A stream outside of it is an error of the kind of
its first fault, and the sink has the data in front of the fault without a mark of the end. -/
theorem readBody_accepts_only_grammar {x : Exchange} (hx : x.peer.Steady) :
    (∀ y, x.readBody .chunked = .ok () y → ∃ chunks calls,
      Chunk.Accepts x.window.capacity (x.window.pending ++ x.peer.stream) chunks
        (y.window.pending ++ y.peer.stream) ∧
      Slices calls (Chunk.body chunks) ∧
      deliveries y.trace = deliveries x.trace ++ calls ++ [.write []]) ∧
    (∀ e y, x.readBody .chunked = .error e y → ∃ chunks part calls,
      Chunk.Rejects x.window.capacity x.peer.ending (x.window.pending ++ x.peer.stream) chunks
        part e ∧
      Slices calls (Chunk.body chunks ++ part) ∧
      deliveries y.trace = deliveries x.trace ++ calls) ∧
    (∀ chunks part e,
      Chunk.Rejects x.window.capacity x.peer.ending (x.window.pending ++ x.peer.stream) chunks
        part e →
      ∃ y, x.readBody .chunked = .error e y) := by
  rcases Chunk.accepts_or_rejects x.window.capacity x.peer.ending
      (x.window.pending ++ x.peer.stream) with
    ⟨chunks, rest, haccepts⟩ | ⟨chunks, part, e, hrejects⟩
  · obtain ⟨z, hz, rfl, calls, hcalls, hdeliveries⟩ := readBody_of_accepts hx haccepts
    refine ⟨?_, ?_, ?_⟩
    · intro y hy
      obtain ⟨-, rfl⟩ := EStateM.Result.ok.inj (hz.symm.trans hy)
      exact ⟨chunks, calls, haccepts, hcalls, hdeliveries⟩
    · intro e y hy
      cases hz.symm.trans hy
    · intro chunks part e hrejects
      obtain ⟨y, hy, -⟩ := readBody_of_rejects hx hrejects
      exact ⟨y, hy⟩
  · obtain ⟨z, hz, calls, hcalls, hdeliveries⟩ := readBody_of_rejects hx hrejects
    refine ⟨?_, ?_, ?_⟩
    · intro y hy
      cases hz.symm.trans hy
    · intro e' y hy
      obtain ⟨rfl, rfl⟩ := EStateM.Result.error.inj (hz.symm.trans hy)
      rw [List.append_nil] at hdeliveries
      exact ⟨chunks, part, calls, hrejects, hcalls, hdeliveries⟩
    · intro chunks part e hrejects
      obtain ⟨y, hy, -⟩ := readBody_of_rejects hx hrejects
      exact ⟨y, hy⟩

/-- A chunk whose data is longer than its size says: where the line end should be stands more of
it. -/
theorem readBody_rejects_missing_line_end :
    ∃ y,
      ((Client.new 16).startExchange (.sending [Utf8.ofString "2\r\na", Utf8.ofString "bcd"])
        none 1000).readBody .chunked = .error .protocol y := by
  have hchunk : Chunk.Valid 16 ⟨Utf8.ofString "2", Utf8.ofString "ab"⟩ :=
    { fits := Window.holdsLine_of_not_mem (by decide) (by decide)
      size := Chunk.parseSize_eq_ok_iff.1 rfl
      nonEmpty := by decide }
  have hfault : Chunk.Fault 16 .closed
      (Utf8.ofString "2" ++ crlf ++ Utf8.ofString "ab" ++ Utf8.ofString "cd") (Utf8.ofString "ab")
      .protocol :=
    .chunk hchunk (by decide) (by decide)
  exact (readBody_accepts_only_grammar (Peer.steady_sending (by decide))).2.2 [] _ _
    ⟨by simp, _, hfault, by decide +kernel⟩

end DeviceHttp.Exchange
