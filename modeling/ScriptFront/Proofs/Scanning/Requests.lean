import ScriptFront.Proofs.Scanning.Scans
import ScriptFront.Token.Reader

/-!
# What a reader hands out

While requests are answered, a reader moves on through its text and hands out tokens.  Which tokens
these are is decided by the characters that are left, and by nothing that was in front of them: two
readers with the same characters left hand out the same tokens, but for the positions.  Only two
requests go back to the start of the text.

**Results.**

* `Reader.nextToken_of_gap`, `Reader.nextToken_of_scan`: the next token by what is left.
* `Reader.answer_congr`: one request to two readers with the same characters left.
* `Reader.handedOut_congr`: any requests to two such readers.
-/

namespace ScriptFront
namespace Reader

/-- A request that puts the reader back to the start of its text. -/
def Request.rewinds : Request → Bool
  | .tokenize | .reset => true
  | _ => false

/-- The tokens that are handed out with an answer. -/
def Answer.found : Answer → List Token
  | .token t => t.toList
  | .tokens ts => ts
  | _ => []

/-- The reader after some requests, one after the other. -/
def run (r : Reader) (requests : List Request) : Reader :=
  requests.foldl (fun r request => (r.answer request).2) r

/-- The tokens that are handed out while some requests are answered. -/
def handedOut (r : Reader) (requests : List Request) : List Token :=
  (r.answers requests).flatMap fun step => step.1.found

theorem run_cons (r : Reader) (request : Request) (requests : List Request) :
    r.run (request :: requests) = (r.answer request).2.run requests := rfl

theorem handedOut_cons (r : Reader) (request : Request) (requests : List Request) :
    r.handedOut (request :: requests) =
      (r.answer request).1.found ++ (r.answer request).2.handedOut requests := rfl

section Steps

variable {r : Reader} {c : Char} {cs ds : List Char}

theorem nextToken_of_gap (h : Token.afterGap r.rest = []) :
    r.nextToken = (none, { r with cursor := r.cursor.passAll r.rest }) := by
  unfold nextToken
  rw [Cursor.next?_of_gap h]

theorem nextToken_of_scan (h : Token.afterGap r.rest = c :: ds) :
    r.nextToken = (some ((Token.scan c ds).token
        ((r.cursor.passAll (Token.gap r.rest)).position r.file)),
      { r with cursor :=
          (r.cursor.passAll (Token.gap r.rest)).passAll (Token.scan c ds).span }) := by
  unfold nextToken
  rw [Cursor.next?_of_scan h]

/-- The next token is the first one of those that are left. -/
theorem head?_drain (r : Reader) : r.drain.1.head? = r.nextToken.1 := by
  unfold drain
  cases hafter : Token.afterGap r.rest with
  | nil =>
    rw [nextToken_of_gap hafter, Cursor.tokens_of_gap hafter]
    rfl
  | cons c ds =>
    rw [nextToken_of_scan hafter, Cursor.tokens_of_scan hafter]
    rfl

/-- What is left behind the characters that have been passed. -/
theorem rest_passAll (h : r.rest = cs ++ ds) :
    rest { r with cursor := r.cursor.passAll cs } = ds := by
  have hdrop : r.rest.drop cs.length = ds := by rw [h, List.drop_left]
  rw [rest, List.drop_drop] at hdrop
  rw [rest, Cursor.passAll_offset]
  exact hdrop

theorem rest_passRest (r : Reader) : rest { r with cursor := r.cursor.passAll r.rest } = [] :=
  rest_passAll (List.append_nil r.rest).symm

end Steps

section Agreement

variable {r r' : Reader} {request : Request} {requests : List Request}

theorem nextToken_congr (h : r.rest = r'.rest) :
    r.nextToken.1.map Token.face = r'.nextToken.1.map Token.face ∧
      r.nextToken.2.rest = r'.nextToken.2.rest := by
  cases hafter : Token.afterGap r.rest with
  | nil =>
    rw [nextToken_of_gap hafter, nextToken_of_gap (h ▸ hafter)]
    exact ⟨rfl, (rest_passRest r).trans (rest_passRest r').symm⟩
  | cons c ds =>
    have hrest := Token.gap_append_span hafter
    have hrest' := Token.gap_append_span (h ▸ hafter)
    rw [← List.append_assoc] at hrest hrest'
    rw [nextToken_of_scan hafter, nextToken_of_scan (h ▸ hafter), ← Cursor.passAll_append,
      ← Cursor.passAll_append]
    exact ⟨rfl, (rest_passAll hrest).trans (rest_passAll hrest').symm⟩

/-- The same characters are left of two texts: a request finds the same tokens in both, and leaves
the same characters again. -/
theorem answer_congr (h : r.rest = r'.rest) (hrequest : request.rewinds = false) :
    (r.answer request).1.found.map Token.face = (r'.answer request).1.found.map Token.face ∧
      (r.answer request).2.rest = (r'.answer request).2.rest := by
  cases request with
  | nextToken =>
    obtain ⟨hface, hrest⟩ := nextToken_congr h
    refine ⟨?_, hrest⟩
    simp only [answer, Answer.found, ← Option.toList_map, hface]
  | drain =>
    refine ⟨?_, (rest_passRest r).trans (rest_passRest r').symm⟩
    simp only [answer, Answer.found, drain, Cursor.map_face_tokens, h]
  | peekBy distance =>
    simp only [answer]
    split <;> split <;> exact ⟨rfl, h⟩
  | advance =>
    have hsplit (r : Reader) : r.advance.rest = r.rest.drop 1 :=
      rest_passAll (List.take_append_drop 1 r.rest).symm
    refine ⟨rfl, ?_⟩
    rw [answer, answer, hsplit, hsplit, h]
  | position => exact ⟨rfl, h⟩
  | valid => exact ⟨rfl, h⟩
  | tokenize => cases hrequest
  | reset => cases hrequest

/-- The characters that are left decide which tokens are handed out, whatever is asked for. -/
theorem handedOut_congr (h : r.rest = r'.rest)
    (hrequests : ∀ request ∈ requests, request.rewinds = false) :
    (r.handedOut requests).map Token.face = (r'.handedOut requests).map Token.face ∧
      (r.run requests).rest = (r'.run requests).rest := by
  induction requests generalizing r r' with
  | nil => exact ⟨rfl, h⟩
  | cons request requests ih =>
    obtain ⟨hrequest, hrequests⟩ := List.forall_mem_cons.mp hrequests
    obtain ⟨hfound, hleft⟩ := answer_congr h hrequest
    obtain ⟨htokens, hrest⟩ := ih hleft hrequests
    rw [handedOut_cons, handedOut_cons, List.map_append, List.map_append, hfound, htokens]
    exact ⟨rfl, hrest⟩

end Agreement
end Reader
end ScriptFront
