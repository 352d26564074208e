import G2way.Middleware.Cache
import G2way.Proxy.Discovery

/-!
# Request body limits

`g2-middleware/src/size_limit.rs`: "A declared `Content-Length` above the limit is rejected
immediately with `413`", and "the body is wrapped in a counting reader that fails with
`RequestTooLarge` once more bytes than the limit actually arrive — covering chunked and HTTP/2
streams that declare no length".

## The model

The body of a request is what its polls answer, as for the recording body of the caches
(`Cache.Polled`). `LimitedBody` is a service over polls: whoever reads the body sees its answers.

## What is proved

`limited_body`: whatever arrives, and however it is cut into frames, a body within the limit is read
unchanged; of one above it, the polls up to the first frame that exceeds the limit, then the error,
and not a byte after that. So an upstream never gets more than the limit, and never a part of a body
as if it were the whole.
-/

namespace G2way.Middleware.SizeLimit

open G2way.Core G2way.Lib G2way.Lib.Result G2way.Middleware.Cache

variable {ε : Type}

/-! ### The layer -/

/-- `TOO_LARGE_MSG`. -/
def tooLarge : Rejection := ⟨413, "request body too large", none⟩

/-- The length a request declares. -/
def declaredLength (headers : HeaderMap) : Option ℕ :=
  (headers.getStr "content-length").bind (Proxy.parseUnsigned (2 ^ 64))

/-- `RequestSizeLimit::call`, where the body of the request that is passed on is a `LimitedBody`. -/
def call (limit : ℕ) (req : Request) : Except Rejection Request := do
  ensure (!(declaredLength req.headers).any (limit < ·)) tooLarge
  return req

/-! ### The body -/

/-- An error of the body: the limit's own, or one from inside. -/
inductive BodyError (ε : Type) where
  /-- `RequestTooLarge`. -/
  | requestTooLarge (limit : ℕ)
  | inner (e : ε)
  deriving DecidableEq, Repr

/-- `LimitedBody`. -/
structure LimitedBody where
  limit : ℕ
  remaining : ℕ
  deriving DecidableEq, Repr

/-- `LimitedBody::poll_frame`. -/
def LimitedBody.pollFrame (body : LimitedBody) : Polled ε → Polled (BodyError ε) × LimitedBody
  | .frame (.data bytes) endStream =>
    if body.remaining < bytes.length then (.error (.requestTooLarge body.limit), { body with remaining := 0 })
    else (.frame (.data bytes) endStream, { body with remaining := body.remaining - bytes.length })
  | .frame (.trailers headers) endStream => (.frame (.trailers headers) endStream, body)
  | .error e => (.error (.inner e), body)
  | .finished => (.finished, body)
  | .pending => (.pending, body)

/-- What is read of a body. -/
def LimitedBody.seen (body : LimitedBody) (polls : List (Polled ε)) : List (Polled (BodyError ε)) :=
  (answered LimitedBody.pollFrame body polls).map Prod.snd

/-- The body of a request that the layer passes on. -/
def limited (limit : ℕ) : LimitedBody := ⟨limit, limit⟩

/-! ### Limited streams -/

/-- A poll that is handed on. -/
def handedOn : Polled ε → Polled (BodyError ε)
  | .frame frame endStream => .frame frame endStream
  | .error e => .error (.inner e)
  | .finished => .finished
  | .pending => .pending

/-- What is read of the polls of a body with this limit. -/
structure Limited (limit : ℕ) (polls : List (Polled ε)) (seen : List (Polled (BodyError ε))) : Prop where
  /-- A body within the limit is unchanged. -/
  within : (dataOf polls).length ≤ limit → seen = polls.map handedOn
  /-- One above it fails at the first frame that exceeds the limit, and yields no byte after that. -/
  exceeds : limit < (dataOf polls).length → ∃ before bytes endStream later rest,
    polls = before ++ .frame (.data bytes) endStream :: later ∧ (dataOf before).length ≤ limit ∧
      limit < (dataOf before).length + bytes.length ∧
      seen = before.map handedOn ++ .error (.requestTooLarge limit) :: rest ∧ dataOf rest = []
  /-- So what is read is the body up to some point, and no more than the limit. -/
  front : dataOf seen <+: dataOf polls
  bounded : (dataOf seen).length ≤ limit
  /-- What ends cleanly is the whole body. -/
  whole : endedCleanly seen = true → dataOf seen = dataOf polls

section

variable {body : LimitedBody} {polls : List (Polled ε)}

theorem dataOf_append (ps qs : List (Polled ε)) : dataOf (ps ++ qs) = dataOf ps ++ dataOf qs := by
  rw [dataOf, dataOf, dataOf, List.flatMap_append]

theorem dataOf_cons_frame (frame : Frame) (endStream : Bool) (ps : List (Polled ε)) :
    dataOf (.frame frame endStream :: ps) = frame.bytes ++ dataOf ps := by
  rw [dataOf, dataOf, List.flatMap_cons]

/-- A poll without data yields none. -/
theorem dataOf_cons {p : Polled ε} (h : dataOf [p] = []) (ps : List (Polled ε)) : dataOf (p :: ps) = dataOf ps := by
  rw [← List.singleton_append, dataOf_append, h, List.nil_append]

theorem dataOf_map_handedOn (ps : List (Polled ε)) : dataOf (ps.map handedOn) = dataOf ps := by
  rw [dataOf, dataOf, List.flatMap_map]
  refine List.flatMap_congr fun p _ => ?_
  cases p <;> rfl

theorem seen_cons (body : LimitedBody) (p : Polled ε) (polls : List (Polled ε)) :
    body.seen (p :: polls) = (body.pollFrame p).1 :: (body.pollFrame p).2.seen polls := rfl

/-- A poll that fits is handed on, and what it yields is counted. -/
theorem pollFrame_of_le {p : Polled ε} (h : (dataOf [p]).length ≤ body.remaining) :
    body.pollFrame p = (handedOn p, { body with remaining := body.remaining - (dataOf [p]).length }) := by
  cases p with
  | frame frame endStream =>
    rw [dataOf_cons_frame] at h ⊢
    cases frame with
    | data bytes =>
      have hfits : ¬ body.remaining < bytes.length := by simpa [dataOf, Frame.bytes] using h
      rw [LimitedBody.pollFrame, if_neg hfits]
      simp [handedOn, dataOf, Frame.bytes]
    | trailers headers => simp [LimitedBody.pollFrame, handedOn, dataOf, Frame.bytes]
  | error e => rfl
  | finished => rfl
  | pending => rfl

/-- One that does not is a frame of data, and the error takes its place. -/
theorem pollFrame_of_lt {p : Polled ε} (h : body.remaining < (dataOf [p]).length) :
    ∃ bytes endStream, p = .frame (.data bytes) endStream ∧
      body.pollFrame p = (.error (.requestTooLarge body.limit), { body with remaining := 0 }) := by
  cases p with
  | frame frame endStream =>
    cases frame with
    | data bytes =>
      refine ⟨bytes, endStream, rfl, ?_⟩
      rw [LimitedBody.pollFrame, if_pos (by simpa [dataOf, Frame.bytes] using h)]
    | trailers headers => simp [dataOf, Frame.bytes] at h
  | error e => simp [dataOf] at h
  | finished => simp [dataOf] at h
  | pending => simp [dataOf] at h

/-- When nothing remains, nothing is read. -/
theorem dataOf_seen_of_zero (h : body.remaining = 0) (polls : List (Polled ε)) : dataOf (body.seen polls) = [] := by
  induction polls generalizing body with
  | nil => rfl
  | cons p polls ih =>
    rw [seen_cons]
    by_cases hfits : (dataOf [p]).length ≤ body.remaining
    · have hempty : dataOf [p] = [] := by
        rw [h, Nat.le_zero, List.length_eq_zero_iff] at hfits
        exact hfits
      have hhanded : dataOf [handedOn p] = [] := by
        rw [← hempty, ← dataOf_map_handedOn [p]]
        rfl
      rw [pollFrame_of_le hfits, dataOf_cons hhanded]
      exact ih (by simp [h])
    · obtain ⟨bytes, endStream, -, hpoll⟩ := pollFrame_of_lt (Nat.lt_of_not_le hfits)
      rw [hpoll, dataOf_cons rfl]
      exact ih rfl

/-- A body within what remains is unchanged. -/
theorem seen_of_le (h : (dataOf polls).length ≤ body.remaining) : body.seen polls = polls.map handedOn := by
  induction polls generalizing body with
  | nil => rfl
  | cons p polls ih =>
    rw [← List.singleton_append, dataOf_append, List.length_append] at h
    rw [seen_cons, pollFrame_of_le (by omega), List.map_cons]
    exact congrArg _ (ih (by simp only; omega))

/-- One above it fails where it first exceeds it. -/
theorem seen_of_lt (h : body.remaining < (dataOf polls).length) :
    ∃ before bytes endStream later, polls = before ++ .frame (.data bytes) endStream :: later ∧
      (dataOf before).length ≤ body.remaining ∧ body.remaining < (dataOf before).length + bytes.length ∧
      body.seen polls = before.map handedOn ++ .error (.requestTooLarge body.limit) ::
        LimitedBody.seen { body with remaining := 0 } later := by
  induction polls generalizing body with
  | nil => simp [dataOf] at h
  | cons p polls ih =>
    by_cases hfits : (dataOf [p]).length ≤ body.remaining
    · rw [← List.singleton_append, dataOf_append, List.length_append] at h
      have hmore : (⟨body.limit, body.remaining - (dataOf [p]).length⟩ : LimitedBody).remaining < (dataOf polls).length := by
        simp only
        omega
      obtain ⟨before, bytes, endStream, later, rfl, hle, hlt, hseen⟩ := ih hmore
      refine ⟨p :: before, bytes, endStream, later, rfl, ?_, ?_, ?_⟩
      · rw [← List.singleton_append, dataOf_append, List.length_append]
        simp only at hle
        omega
      · rw [← List.singleton_append, dataOf_append, List.length_append]
        simp only at hlt
        omega
      · rw [seen_cons, pollFrame_of_le hfits, hseen]
        rfl
    · obtain ⟨bytes, endStream, rfl, hpoll⟩ := pollFrame_of_lt (Nat.lt_of_not_le hfits)
      refine ⟨[], bytes, endStream, polls, rfl, Nat.zero_le _, ?_, ?_⟩
      · have hlong := Nat.lt_of_not_le hfits
        simp only [dataOf_cons_frame, Frame.bytes, List.length_append] at hlong
        simpa [dataOf] using hlong
      · rw [seen_cons, hpoll]
        rfl

end

/-- **A limited body is whole or fails.** Whatever the polls of a request's body answer, in whatever frames its bytes
come. -/
theorem limited_body (limit : ℕ) (polls : List (Polled ε)) : Limited limit polls ((limited limit).seen polls) := by
  by_cases hfits : (dataOf polls).length ≤ limit
  · have hseen : (limited limit).seen polls = polls.map handedOn := seen_of_le hfits
    have hdata : dataOf ((limited limit).seen polls) = dataOf polls := by rw [hseen, dataOf_map_handedOn]
    exact ⟨fun _ => hseen, fun h => absurd hfits (Nat.not_le.2 h), hdata ▸ List.prefix_rfl, hdata ▸ hfits, fun _ => hdata⟩
  · have hexceeds : (limited limit).remaining < (dataOf polls).length := Nat.lt_of_not_le hfits
    obtain ⟨before, bytes, endStream, later, hpolls, hle, hlt, hseen⟩ := seen_of_lt hexceeds
    have hrest : dataOf (LimitedBody.seen ⟨limit, 0⟩ later) = [] := dataOf_seen_of_zero rfl later
    have hdata : dataOf ((limited limit).seen polls) = dataOf before := by
      rw [hseen, dataOf_append, dataOf_map_handedOn, dataOf_cons rfl]
      exact (congrArg _ hrest).trans (List.append_nil _)
    constructor
    case within => exact fun h => absurd h hfits
    case exceeds => exact fun _ => ⟨before, bytes, endStream, later, _, hpolls, hle, hlt, hseen, hrest⟩
    case front =>
      rw [hdata, hpolls, dataOf_append]
      exact List.prefix_append ..
    case bounded =>
      rw [hdata]
      exact hle
    case whole =>
      intro hclean
      rw [hseen] at hclean
      simp [endedCleanly, failed] at hclean

end G2way.Middleware.SizeLimit
