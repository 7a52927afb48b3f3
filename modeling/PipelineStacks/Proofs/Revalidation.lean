import PipelineStacks.Proofs.Downloads

/-!
# Downloads from a server that revalidates

A server has a current representation for each address, which may be replaced at any time, and says
"not modified" exactly when the current tag is among the conditions of the request.  Then a cache
makes no difference to what a download gets: `fetch_faithful`.

What carries the proof is that each cached body was current together with its tag at some time
(`ArchiveCache.Faithful`).  It is kept by whatever a download comes to, and by drops.
-/

namespace PipelineStacks

namespace Download

variable {σ : Type}

/-- What a server has for an address. -/
structure Representation where
  etag : Option String
  date : Option String
  body : Bytes

/-- The tag of a representation is among the conditions of a request. -/
def Representation.isNamedBy (r : Representation) (request : WebRequest) : Bool :=
  r.etag.any fun tag => ("if-none-match", tag) ∈ request.headers

/-- A network that is a server which revalidates. -/
structure Serves (network : Network σ) (current : σ → String → Representation) : Prop where
  /-- "Not modified" is said exactly to requests that name the current tag. -/
  unmodified : ∀ {request : WebRequest} {n : σ} {a : WebAnswer}, (network request n).1 = .ok a →
    (a.status = 304 ↔ (current n request.url).isNamedBy request)
  /-- An answer with a body comes with the current validators. -/
  validators : ∀ {request : WebRequest} {n : σ} {a : WebAnswer},
    (network request n).1 = .ok a → a.status = 200 →
      a.etag = (current n request.url).etag ∧ a.date = (current n request.url).date
  /-- A body that arrives whole is the current one. -/
  body : ∀ {request : WebRequest} {n : σ} {a : WebAnswer} {body : Bytes},
    (network request n).1 = .ok a → a.status = 200 → a.body = .ok body →
      body = (current n request.url).body
  /-- A tag never stands for two bodies of an address. -/
  tags : ∀ {n n' : σ} {url tag : String}, (current n url).etag = some tag →
    (current n' url).etag = some tag → (current n url).body = (current n' url).body

/-- A cache in which each body was current together with its tag at some time. -/
def Faithful (current : σ → String → Representation) (c : ArchiveCache) : Prop :=
  ∀ ⦃url e⦄, c.get? url = some e →
    ∃ n, (current n url).etag = some e.etag ∧ (current n url).body = e.body

/-- The server answers in a way that a body can be had from. -/
def Call.Delivered (c : Call) : Prop :=
  c.HasStatus 304 ∨ ∃ body, c.received? = some body

variable {network : Network σ} {current : σ → String → Representation} {s : State × σ}
  {url : String} {skip : Bool}

variable (network) in
/-- A tag that a download names is the one of the cached copy. -/
lemma exists_of_isNamedBy {r : Representation}
    (h : r.isNamedBy (call network s url skip).request) :
    ∃ e, s.1.cache.get? url = some e ∧ r.etag = some e.etag := by
  obtain ⟨tag, htag, hmem⟩ := (Option.any_eq_true ..).mp h
  have hmem : ("if-none-match", tag) ∈ conditions (s.1.cache.validators url) :=
    of_decide_eq_true hmem
  rw [ArchiveCache.validators] at hmem
  cases he : s.1.cache.get? url with
  | none => simp [he, conditions] at hmem
  | some e =>
    have : tag = e.etag := by simpa [he, conditions] using hmem
    exact ⟨e, rfl, this ▸ htag⟩

/-- A faithful cache has the current body for any request that is answered "not modified". -/
lemma Faithful.exists_of_hasStatus (hserver : Serves network current)
    (hcache : Faithful current s.1.cache) (h : (call network s url skip).HasStatus 304) :
    ∃ e, s.1.cache.get? url = some e ∧ e.body = (current s.2 url).body := by
  obtain ⟨a, ha, hstatus⟩ := h
  obtain ⟨e, he, htag⟩ := exists_of_isNamedBy network ((hserver.unmodified ha).mp hstatus)
  obtain ⟨n, hn, hbody⟩ := hcache he
  exact ⟨e, he, hbody.symm.trans (hserver.tags hn htag)⟩

/-- Whatever a download comes to, the cache stays faithful. -/
lemma Ends.faithful (hserver : Serves network current) (hcache : Faithful current s.1.cache)
    {r : Except Failure Bytes} {c : ArchiveCache} (h : Ends network s url skip r c) :
    Faithful current c := by
  intro url' e' he'
  cases h with
  | @current e _ he =>
    rw [SortedMap.get?_insert] at he'
    split at he'
    next hurl =>
      obtain ⟨n, hn⟩ := hcache he
      cases he'
      rw [hurl]
      exact ⟨n, hn⟩
    next => exact hcache he'
  | @received a body ha hstatus hbody =>
    rw [ArchiveCache.get?_store] at he'
    split at he'
    next hurl =>
      obtain ⟨etag, hetag, h⟩ := Option.bind_eq_some_iff.mp he'
      obtain ⟨date, -, rfl⟩ := Option.map_eq_some_iff.mp h
      rw [hurl]
      refine ⟨s.2, ?_, (hserver.body ha hstatus hbody).symm⟩
      exact (hserver.validators ha hstatus).1.symm.trans hetag
    next => exact hcache he'
  | failed => exact hcache he'

/-- The cache is faithful whatever has happened. -/
theorem History.faithful (hserver : Serves network current) {past : List Happening}
    (h : History network past s) : Faithful current s.1.cache := by
  induction h with
  | start n =>
    intro url e he
    cases he
  | fetch _ url skip ih => exact (ends network _ url skip).faithful hserver ih
  | purge _ kept ih =>
    intro url e he
    rw [ArchiveCache.get?_keep] at he
    split at he
    · exact ih he
    · cases he
  | elapse _ now n ih => exact ih

/-- A body that is handed out is the current one. -/
lemma Ends.eq_current (hserver : Serves network current) (hcache : Faithful current s.1.cache)
    {r : Except Failure Bytes} {c : ArchiveCache} (h : Ends network s url skip r c) {body : Bytes}
    (hr : r = .ok body) : body = (current s.2 url).body := by
  cases h with
  | @current e hstatus he =>
    cases hr
    obtain ⟨e', he', hbody⟩ := hcache.exists_of_hasStatus hserver hstatus
    cases he.symm.trans he'
    exact hbody
  | @received a body' ha hstatus hbody =>
    cases hr
    exact hserver.body ha hstatus hbody
  | failed => cases hr

/-- There is a body exactly if the server answers in a way that one can be had from. -/
lemma Ends.isOk_iff (hserver : Serves network current) (hcache : Faithful current s.1.cache)
    {r : Except Failure Bytes} {c : ArchiveCache} (h : Ends network s url skip r c) :
    (∃ body, r = .ok body) ↔ (call network s url skip).Delivered := by
  cases h with
  | @current e hstatus he => exact ⟨fun _ => .inl hstatus, fun _ => ⟨_, rfl⟩⟩
  | @received a body ha hstatus hbody =>
    exact ⟨fun _ => .inr ⟨body, Call.received?_of_whole ha hstatus hbody⟩, fun _ => ⟨_, rfl⟩⟩
  | @failed f hcopy hbody =>
    constructor
    · rintro ⟨body, hsome⟩
      cases hsome
    · rintro (hstatus | ⟨body, hreceived⟩)
      · obtain ⟨e, he, -⟩ := hcache.exists_of_hasStatus hserver hstatus
        cases (hcopy hstatus).symm.trans he
      · cases hbody.symm.trans hreceived

/-- After any downloads and drops, a download from a server that revalidates succeeds exactly if
its request is answered in a way that a body can be had from.  It then gets the current body, like
a download without a cache; otherwise it leaves the cache as it was. -/
theorem fetch_faithful (hserver : Serves network current) {past : List Happening}
    (hpast : History network past s) (url : String) (skip : Bool) :
    callsOf ((fetch url skip).log (world network) s) = [call network s url skip] ∧
    ((∃ body, ((fetch url skip).run (world network) s).1 = .ok body) ↔
      (call network s url skip).Delivered) ∧
    (∀ body, ((fetch url skip).run (world network) s).1 = .ok body →
      body = (current s.2 url).body ∧
      ∀ body', ((fetch url skip).run (world network) ({}, s.2)).1 = .ok body' → body' = body) ∧
    (∀ f, ((fetch url skip).run (world network) s).1 = .error f →
      ((fetch url skip).run (world network) s).2.1.cache = s.1.cache) := by
  have hcache := hpast.faithful hserver
  have hends := ends network s url skip
  have hbare : Faithful current (({}, s.2) : State × σ).1.cache :=
    (History.start s.2 : History network [] _).faithful hserver
  refine ⟨callsOf_fetch network s url skip, hends.isOk_iff hserver hcache, fun body hbody => ?_,
    fun f hf => ?_⟩
  · have hcurrent := hends.eq_current hserver hcache hbody
    refine ⟨hcurrent, fun body' hbody' => ?_⟩
    exact ((ends network ({}, s.2) url skip).eq_current hserver hbare hbody').trans hcurrent.symm
  · exact hends.cache_eq hf

/-! ## A server -/

/-- The server that has certain representations. -/
def server (current : σ → String → Representation) : Network σ := fun request n =>
  let r := current n request.url
  (.ok (if r.isNamedBy request then ⟨304, r.etag, r.date, .ok []⟩
    else ⟨200, r.etag, r.date, .ok r.body⟩), n)

/-- A server whose tags stand for one body each revalidates. -/
theorem server_serves {current : σ → String → Representation}
    (htags : ∀ {n n' : σ} {url tag : String}, (current n url).etag = some tag →
      (current n' url).etag = some tag → (current n url).body = (current n' url).body) :
    Serves (server current) current := by
  refine ⟨fun ha => ?_, fun ha hstatus => ?_, fun ha hstatus hbody => ?_, htags⟩
  · cases Except.ok.inj ha
    split <;> simp_all
  · cases Except.ok.inj ha
    split at hstatus <;> simp_all
  · cases Except.ok.inj ha
    split at hstatus <;> simp_all

/-- An archive that is replaced once. -/
def replaced (later : Bool) (_url : String) : Representation :=
  if later then ⟨some "v2", some "tuesday", [2]⟩ else ⟨some "v1", some "monday", [1]⟩

/-- The copy of a replaced archive is itself replaced, and is handed out from then on. -/
theorem fetch_faithful_replaced : ∃ past s, History (server replaced) past s ∧
    (call (server replaced) s "u" false).HasStatus 304 ∧
    ((fetch "u" false).run (world (server replaced)) s).1 = .ok [2] := by
  have hserver : Serves (server replaced) replaced := server_serves fun {n n' _ _} h h' => by
    cases n <;> cases n' <;> simp_all [replaced, ← h']
  have hstart : History (server replaced) [] ({}, false) := .start false
  have hpast := ((hstart.fetch "u" false).elapse 1 true).fetch "u" false
  refine ⟨_, _, hpast, ⟨_, rfl, rfl⟩, ?_⟩
  obtain ⟨-, hdelivered, hcurrent, -⟩ := fetch_faithful hserver hpast "u" false
  obtain ⟨body, hbody⟩ := hdelivered.mpr (.inl ⟨_, rfl, rfl⟩)
  rw [hbody, (hcurrent body hbody).1]
  rfl

end Download

end PipelineStacks
