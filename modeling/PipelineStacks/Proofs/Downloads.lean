import PipelineStacks.Proofs.SortedMap
import PipelineStacks.Transport.Download

/-!
# Downloads one after the other

Downloads run to their ends one after the other, entries of the cache are dropped between them, and
the network answers whatever it likes.  What has happened is a list of calls and of drops, the
latest first (`Download.Happening`), and `Download.History` ties it to the state that it leads to.

`Download.ends` says all that a download can come to: it hands out the cached copy, it hands out a
body that it has received, or it fails and leaves the cache as it was.  `exists_keep_eq_purge` says
that a purge is such a drop of entries.
-/

namespace PipelineStacks

namespace ArchiveCache

/-- The cache with the entries of some addresses only. -/
def keep (c : ArchiveCache) (kept : String → Bool) : ArchiveCache :=
  c.filter fun url _ => kept url

/-- What a drop does to a look-up. -/
lemma get?_keep (c : ArchiveCache) (kept : String → Bool) (url : String) :
    (c.keep kept).get? url = if kept url then c.get? url else none := by
  rw [keep, SortedMap.get?_filter]
  cases c.get? url with
  | none => simp
  | some e => cases kept url <;> simp

/-- A purge drops the entries of some addresses. -/
theorem exists_keep_eq_purge (c : ArchiveCache) (now maxAge : Nat) :
    ∃ kept, (c.purge now maxAge).2 = c.keep kept := by
  refine ⟨fun url => (c.get? url).any (isFresh now maxAge), SortedMap.ext_get? fun url => ?_⟩
  rw [get?_purge, get?_keep]
  cases h : c.get? url with
  | none => simp
  | some e => cases hfresh : isFresh now maxAge e <;> simp [hfresh]

/-- To use an entry changes no copy. -/
lemma get?_insert_used {c : ArchiveCache} {url : String} {e : CacheEntry}
    (he : c.get? url = some e) (now : Nat) {β : Type} (f : CacheEntry → β)
    (hf : f { e with lastUsed := now } = f e) (url' : String) :
    ((c.insert url { e with lastUsed := now }).get? url').map f = (c.get? url').map f := by
  rw [SortedMap.get?_insert]
  split
  · next hurl => rw [hurl, he, Option.map_some, Option.map_some, hf]
  · rfl

/-- What an answer leaves under its own address and under others. -/
lemma get?_store (c : ArchiveCache) (now : Nat) (url : String) (etag date : Option String)
    (body : Bytes) (url' : String) :
    (c.store now url etag date body).get? url' = if url' = url then
      etag.bind fun etag => date.map fun date => ⟨etag, date, body, now⟩ else c.get? url' := by
  unfold store
  cases etag with
  | none => rw [SortedMap.get?_erase]; rfl
  | some etag =>
    cases date with
    | none => rw [SortedMap.get?_erase]; rfl
    | some date => rw [SortedMap.get?_insert]; rfl

end ArchiveCache

namespace Download

variable {σ : Type}

/-- What is answered to a request, and how the network changes by it. -/
abbrev Network (σ : Type) : Type :=
  WebRequest → σ → Except Failure WebAnswer × σ

/-! ## Calls -/

/-- A request with what was answered to it. -/
structure Call where
  request : WebRequest
  answer : Except Failure WebAnswer

namespace Call

/-- The call was answered with a status. -/
def HasStatus (c : Call) (status : Nat) : Prop :=
  ∃ a, c.answer = .ok a ∧ a.status = status

/-- The body that was received in full. -/
def received? (c : Call) : Option Bytes :=
  match c.answer with
  | .ok a => if a.status = 200 then a.body.toOption else none
  | .error _ => none

/-- The tag and the date that came with an answer. -/
def validators? (c : Call) : Option (String × String) :=
  match c.answer with
  | .ok a => a.etag.bind fun etag => a.date.map fun date => (etag, date)
  | .error _ => none

/-- What the cache keeps of the answer: a body that was received in full with both validators. -/
def copy? (c : Call) : Option ((String × String) × Bytes) :=
  c.validators?.bind fun validators => c.received?.map fun body => (validators, body)

variable {c : Call} {a : WebAnswer}

/-- A body is received with status 200 only. -/
lemma received?_of_ok (ha : c.answer = .ok a) :
    c.received? = if a.status = 200 then a.body.toOption else none := by
  rw [received?, ha]

/-- A body that arrives whole with status 200 is received. -/
lemma received?_of_whole (ha : c.answer = .ok a) (hstatus : a.status = 200) {body : Bytes}
    (hbody : a.body = .ok body) : c.received? = some body := by
  rw [received?_of_ok ha, if_pos hstatus, hbody]
  rfl

/-- The validators are the two of the answer. -/
lemma validators?_of_ok (ha : c.answer = .ok a) :
    c.validators? = a.etag.bind fun etag => a.date.map fun date => (etag, date) := by
  rw [validators?, ha]

/-- The status of a call is the one of its answer. -/
lemma hasStatus_iff_of_ok (ha : c.answer = .ok a) {status : Nat} :
    c.HasStatus status ↔ a.status = status := by
  constructor
  · rintro ⟨a', ha', h⟩
    cases ha.symm.trans ha'
    exact h
  · exact fun h => ⟨a, ha, h⟩

/-- An answer that says "not modified" has no body. -/
lemma HasStatus.received?_eq_none (h : c.HasStatus 304) : c.received? = none := by
  obtain ⟨a, ha, hstatus⟩ := h
  simp [received?_of_ok ha, hstatus]

end Call

/-- What is kept of an answer. -/
def copyOf (e : CacheEntry) : (String × String) × Bytes :=
  ((e.etag, e.date), e.body)

/-- The request that a download sends, with what is answered to it. -/
def call (network : Network σ) (s : State × σ) (url : String) (skip : Bool) : Call :=
  let request : WebRequest := ⟨url, conditions (s.1.cache.validators url), !skip⟩
  ⟨request, (network request s.2).1⟩

/-- The calls among some exchanges. -/
def callsOf (log : List (Program.Exchange Question.Answer)) : List Call :=
  log.filterMap fun
    | ⟨.send request, answer⟩ => some ⟨request, answer⟩
    | _ => none

/-- The failure of a download whose copy is gone when it is told to use it. -/
def noCopy (url : String) : Failure :=
  .root ("Received 304 Not Modified for " ++ url ++ " but no cached copy exists")

/-! ## The questions of a download -/

/-- How a download goes on with what is answered to its request. -/
def goOn (url : String) (skip : Bool) : Except Failure WebAnswer → Task (Except Failure Bytes)
  | .error e => .done (.error (requestFailure skip e))
  | .ok a => receive url a

/-- What a download that is told to use the cached copy makes of what it finds. -/
def handOut (url : String) : Option Bytes → Except Failure Bytes
  | some body => .ok body
  | none => .error (noCopy url)

/-- A download looks for validators first and sends its request next. -/
theorem fetch_eq (url : String) (skip : Bool) :
    fetch url skip = .ask (.validators url) fun validators =>
      .ask (.send ⟨url, conditions validators, !skip⟩) (goOn url skip) := by
  refine congrArg (Program.ask _) (funext fun _ => congrArg (Program.ask _) (funext fun r => ?_))
  cases r <;> rfl

/-- The cached copy is looked up when the answer says that it is current. -/
lemma receive_of_current (url : String) {a : WebAnswer} (h : a.status = 304) :
    receive url a = .ask .countHit fun _ => .ask (.hit url) fun body =>
      .done (handOut url body) := by
  rw [receive, if_pos h]
  refine congrArg (Program.ask _) (funext fun _ => congrArg (Program.ask _) (funext fun r => ?_))
  cases r <;> rfl

/-- A body that arrives whole is handed to the cache. -/
lemma receive_of_whole (url : String) {a : WebAnswer} {body : Bytes} (h : a.status = 200)
    (hbody : a.body = .ok body) :
    receive url a = .ask (.store url a.etag a.date body) fun _ => .done (.ok body) := by
  rw [receive, if_neg (by simp [h]), if_pos h, hbody]
  rfl

/-- Any other answer is an end without any further question. -/
lemma exists_receive_eq_error (url : String) {a : WebAnswer} (h : a.status ≠ 304)
    (hbody : a.status = 200 → ∀ body, a.body ≠ .ok body) :
    ∃ f, receive url a = .done (.error f) := by
  rw [receive, if_neg h]
  split
  next h200 =>
    cases ha : a.body with
    | error e => exact ⟨_, rfl⟩
    | ok body => exact absurd ha (hbody h200 body)
  next => exact ⟨_, rfl⟩

/-! ## What a download comes to -/

/-- The result of a download, with what it leaves in the cache. -/
inductive Ends (network : Network σ) (s : State × σ) (url : String) (skip : Bool) :
    Except Failure Bytes → ArchiveCache → Prop
  /-- The cached copy is current and is handed out. -/
  | current {e : CacheEntry} (hstatus : (call network s url skip).HasStatus 304)
      (he : s.1.cache.get? url = some e) :
      Ends network s url skip (.ok e.body) (s.1.cache.insert url { e with lastUsed := s.1.now })
  /-- A body is received and handed out. -/
  | received {a : WebAnswer} {body : Bytes} (ha : (call network s url skip).answer = .ok a)
      (hstatus : a.status = 200) (hbody : a.body = .ok body) :
      Ends network s url skip (.ok body) (s.1.cache.store s.1.now url a.etag a.date body)
  /-- There is no body to be handed out. -/
  | failed {f : Failure}
      (hcopy : (call network s url skip).HasStatus 304 → s.1.cache.get? url = none)
      (hbody : (call network s url skip).received? = none) :
      Ends network s url skip (.error f) s.1.cache

/-- A download asks for validators, sends its request and goes on with what is answered. -/
lemma run_fetch (network : Network σ) (s : State × σ) (url : String) (skip : Bool) :
    (fetch url skip).run (world network) s =
      (goOn url skip (call network s url skip).answer).run (world network)
        (s.1, (network (call network s url skip).request s.2).2) := by
  rw [fetch_eq]
  rfl

/-- The copy that is found is handed out and counts as used. -/
lemma run_hit_of_some (network : Network σ) {s : State × σ} {url : String} {e : CacheEntry}
    (he : s.1.cache.get? url = some e) :
    (Program.ask (.hit url) fun body => .done (handOut url body)).run (world network) s =
      (.ok e.body, { s.1 with cache := s.1.cache.insert url { e with lastUsed := s.1.now } },
        s.2) := by
  have hhit : s.1.cache.hit s.1.now url =
      (some e.body, s.1.cache.insert url { e with lastUsed := s.1.now }) := by
    rw [ArchiveCache.hit, he]
  change (handOut url (s.1.cache.hit s.1.now url).1,
    { s.1 with cache := (s.1.cache.hit s.1.now url).2 }, s.2) = _
  rw [hhit]
  rfl

/-- Without a copy there is a failure and nothing changes. -/
lemma run_hit_of_none (network : Network σ) {s : State × σ} {url : String}
    (he : s.1.cache.get? url = none) :
    (Program.ask (.hit url) fun body => .done (handOut url body)).run (world network) s =
      (.error (noCopy url), s) := by
  have hhit : s.1.cache.hit s.1.now url = (none, s.1.cache) := by rw [ArchiveCache.hit, he]
  change (handOut url (s.1.cache.hit s.1.now url).1,
    { s.1 with cache := (s.1.cache.hit s.1.now url).2 }, s.2) = _
  rw [hhit]
  rfl

/-- Whatever is answered, a download ends in one of the three ways. -/
theorem ends (network : Network σ) (s : State × σ) (url : String) (skip : Bool) :
    Ends network s url skip ((fetch url skip).run (world network) s).1
      ((fetch url skip).run (world network) s).2.1.cache := by
  rw [run_fetch]
  cases ha : (call network s url skip).answer with
  | error e =>
    refine .failed (fun hstatus => ?_) (by rw [Call.received?, ha])
    obtain ⟨a, ha', -⟩ := hstatus
    cases ha.symm.trans ha'
  | ok a =>
    rw [goOn]
    by_cases h304 : a.status = 304
    · rw [receive_of_current url h304, Program.run]
      cases he : s.1.cache.get? url with
      | some e =>
        rw [run_hit_of_some network (by exact he)]
        exact .current ⟨a, ha, h304⟩ he
      | none =>
        rw [run_hit_of_none network (by exact he)]
        exact .failed (fun _ => he) (by simp [Call.received?_of_ok ha, h304])
    by_cases hwhole : a.status = 200 ∧ ∃ body, a.body = .ok body
    · obtain ⟨h200, body, hbody⟩ := hwhole
      rw [receive_of_whole url h200 hbody]
      exact .received ha h200 hbody
    · have hnone : a.status = 200 → ∀ body, a.body ≠ .ok body := fun h200 body hbody =>
        hwhole ⟨h200, body, hbody⟩
      obtain ⟨f, hf⟩ := exists_receive_eq_error url h304 hnone
      rw [hf]
      refine .failed (fun h => absurd ((Call.hasStatus_iff_of_ok ha).mp h) h304) ?_
      rw [Call.received?_of_ok ha]
      by_cases h200 : a.status = 200
      · cases hbody : a.body with
        | error e => simp [h200, Except.toOption]
        | ok body => exact absurd hbody (hnone h200 body)
      · simp [h200]

/-- A download that fails leaves the cache as it was. -/
lemma Ends.cache_eq {network : Network σ} {s : State × σ} {url : String} {skip : Bool}
    {r : Except Failure Bytes} {c : ArchiveCache} (h : Ends network s url skip r c) {f : Failure}
    (hr : r = .error f) : c = s.1.cache := by
  cases h with
  | current => cases hr
  | received => cases hr
  | failed => rfl

/-- A computation that sends nothing. -/
def Silent {α : Type} : Task α → Prop
  | .done _ => True
  | .ask q next => (∀ request, q ≠ .send request) ∧ ∀ answer, Silent (next answer)

/-- Once it was answered, a download sends nothing more. -/
theorem silent_goOn (url : String) (skip : Bool) (r : Except Failure WebAnswer) :
    Silent (goOn url skip r) := by
  cases r with
  | error e => trivial
  | ok a =>
    rw [goOn]
    by_cases h304 : a.status = 304
    · rw [receive_of_current url h304]
      exact ⟨nofun, fun _ => ⟨nofun, fun _ => trivial⟩⟩
    by_cases hwhole : a.status = 200 ∧ ∃ body, a.body = .ok body
    · obtain ⟨h200, body, hbody⟩ := hwhole
      rw [receive_of_whole url h200 hbody]
      exact ⟨nofun, fun _ => trivial⟩
    · obtain ⟨f, hf⟩ := exists_receive_eq_error url h304 fun h200 body hbody =>
        hwhole ⟨h200, body, hbody⟩
      rw [hf]
      trivial

/-- There are no calls where nothing is sent. -/
lemma callsOf_log_of_silent {α : Type} (network : Network σ) {p : Task α} (h : Silent p)
    (s : State × σ) : callsOf (p.log (world network) s) = [] := by
  induction p generalizing s with
  | done => rfl
  | ask q next ih =>
    cases q with
    | send request => exact absurd rfl (h.1 request)
    | _ => exact ih _ (h.2 _) _

/-- A download sends one request. -/
theorem callsOf_fetch (network : Network σ) (s : State × σ) (url : String) (skip : Bool) :
    callsOf ((fetch url skip).log (world network) s) = [call network s url skip] := by
  rw [fetch_eq]
  exact congrArg (call network s url skip :: ·)
    (callsOf_log_of_silent network (silent_goOn url skip (call network s url skip).answer) _)

/-! ## What has happened -/

/-- A download that came to its end, or a drop of entries from the cache. -/
inductive Happening
  | fetched (c : Call)
  | purged (kept : String → Bool)

/-- How a state with a cache comes about: downloads and drops follow each other in any order, and
time goes by, in which the network may change by itself. -/
inductive History (network : Network σ) : List Happening → State × σ → Prop
  | start (n : σ) : History network [] ({}, n)
  | fetch {past : List Happening} {s : State × σ} (h : History network past s) (url : String)
      (skip : Bool) : History network (.fetched (call network s url skip) :: past)
        ((Download.fetch url skip).run (world network) s).2
  | purge {past : List Happening} {s : State × σ} (h : History network past s)
      (kept : String → Bool) : History network (.purged kept :: past)
        ({ s.1 with cache := s.1.cache.keep kept }, s.2)
  | elapse {past : List Happening} {s : State × σ} (h : History network past s) (now : Nat)
      (n : σ) : History network past ({ s.1 with now }, n)

end Download

end PipelineStacks
