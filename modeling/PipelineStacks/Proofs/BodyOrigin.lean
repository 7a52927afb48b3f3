import PipelineStacks.Proofs.Revalidation

/-!
# Where bodies come from

Each body that a download hands out was received in full in answer to one request, its own or an
earlier one (`origin`).  The cache knows entries by their addresses only, so a download that
verifies certificates may be told to use what a download that does not has received:
`origin_unverified_iff` says exactly when.

The invariant that carries this is `cached_eq`: what the cache has for an address is what was kept
of one call (`keptFrom`), the last that had a body for the address.
-/

namespace PipelineStacks

namespace Download

variable {σ : Type} {network : Network σ} {s : State × σ} {past : List Happening}

/-- The call received a body for an address. -/
def Call.Has (c : Call) (url : String) : Prop :=
  c.request.url = url ∧ c.received?.isSome

instance (c : Call) (url : String) : Decidable (c.Has url) :=
  inferInstanceAs (Decidable (_ ∧ _))

/-- The call that the cached copy of an address was received in. -/
def keptFrom (url : String) : List Happening → Option Call
  | [] => none
  | .purged kept :: past => if kept url then keptFrom url past else none
  | .fetched c :: past =>
    if c.Has url then if c.copy?.isSome then some c else none else keptFrom url past

/-- What happens leaves the copy of an address where it is. -/
def Happening.Leaves (url : String) : Happening → Prop
  | .fetched c => ¬c.Has url
  | .purged kept => kept url

/-- A call is the last one that had a body for an address, which was kept and not dropped since. -/
def LastKept (url : String) (past : List Happening) (o : Call) : Prop :=
  o.Has url ∧ o.copy?.isSome ∧
    ∃ since earlier, past = since ++ .fetched o :: earlier ∧ ∀ h ∈ since, h.Leaves url

/-- The call that the body of a download was received in: the one that its copy was kept from if it
is told that the copy is current, else its own. -/
def origin (c : Call) (past : List Happening) : Option Call :=
  match c.answer with
  | .ok a => if a.status = 304 then keptFrom c.request.url past else some c
  | .error _ => some c

/-! ## Copies and calls -/

/-- Nothing is kept from nothing that has happened. -/
lemma not_lastKept_nil (url : String) (o : Call) : ¬LastKept url [] o := by
  rintro ⟨-, -, since, earlier, h, -⟩
  cases since <;> cases h

/-- The last call was kept, or an earlier one and the last happening has left its copy. -/
lemma lastKept_cons {url : String} {h : Happening} {o : Call} :
    LastKept url (h :: past) o ↔
      (h = .fetched o ∧ o.Has url ∧ o.copy?.isSome) ∨ (h.Leaves url ∧ LastKept url past o) := by
  constructor
  · rintro ⟨hhas, hcopy, since, earlier, hsplit, hleaves⟩
    cases since with
    | nil =>
      cases hsplit
      exact .inl ⟨rfl, hhas, hcopy⟩
    | cons h' since =>
      cases hsplit
      exact .inr ⟨hleaves h List.mem_cons_self, hhas, hcopy, since, earlier, rfl, fun h hmem =>
        hleaves h (List.mem_cons_of_mem _ hmem)⟩
  · rintro (⟨rfl, hhas, hcopy⟩ | ⟨hleave, hhas, hcopy, since, earlier, rfl, hleaves⟩)
    · exact ⟨hhas, hcopy, [], past, rfl, nofun⟩
    · exact ⟨hhas, hcopy, h :: since, earlier, rfl, List.forall_mem_cons.mpr ⟨hleave, hleaves⟩⟩

/-- The copy of an address comes from the last call that had a body for it. -/
theorem keptFrom_eq_some_iff {url : String} {past : List Happening} {o : Call} :
    keptFrom url past = some o ↔ LastKept url past o := by
  induction past with
  | nil => exact iff_of_false nofun (not_lastKept_nil url o)
  | cons h past ih =>
    rw [lastKept_cons]
    cases h with
    | purged kept =>
      cases hkept : kept url <;> simp [keptFrom, Happening.Leaves, hkept, ih]
    | fetched c =>
      rw [keptFrom, Happening.Leaves]
      by_cases hhas : c.Has url
      · rw [if_pos hhas, ite_eq_iff]
        constructor
        · rintro (⟨hcopy, h⟩ | ⟨-, h⟩)
          · cases h
            exact .inl ⟨rfl, hhas, hcopy⟩
          · cases h
        · rintro (⟨h, -, hcopy⟩ | ⟨hleaves, -⟩)
          · cases h
            exact .inl ⟨hcopy, rfl⟩
          · exact absurd hhas hleaves
      · rw [if_neg hhas, ih]
        constructor
        · exact fun h => .inr ⟨hhas, h⟩
        · rintro (⟨h, hhas', -⟩ | ⟨-, h⟩)
          · cases h
            exact absurd hhas' hhas
          · exact h

/-- What a download leaves in the cache is what is kept of its call, where that has a body. -/
lemma Ends.cached_eq {url' : String} {skip : Bool} {r : Except Failure Bytes} {c : ArchiveCache}
    (h : Ends network s url' skip r c) (url : String) :
    (c.get? url).map copyOf = if (call network s url' skip).Has url
      then (call network s url' skip).copy? else (s.1.cache.get? url).map copyOf := by
  cases h with
  | @current e hstatus he =>
    rw [if_neg (by simp [Call.Has, hstatus.received?_eq_none])]
    exact ArchiveCache.get?_insert_used he s.1.now copyOf rfl url
  | @received a body ha hstatus hbody =>
    have hreceived := Call.received?_of_whole ha hstatus hbody
    have hhas : (call network s url' skip).Has url ↔ url = url' :=
      ⟨fun h => h.1.symm, fun h => ⟨h.symm, by rw [hreceived]; rfl⟩⟩
    rw [ArchiveCache.get?_store]
    simp only [hhas]
    split
    · rw [Call.copy?, hreceived, Call.validators?_of_ok ha]
      cases a.etag <;> cases a.date <;> rfl
    · rfl
  | failed hcopy hbody => rw [if_neg (by simp [Call.Has, hbody])]

/-- What the cache has of an address is what was kept of a call. -/
theorem History.cached_eq (h : History network past s) (url : String) :
    (s.1.cache.get? url).map copyOf = (keptFrom url past).bind Call.copy? := by
  induction h with
  | start n => rfl
  | @fetch past s _ url' skip ih =>
    rw [(ends network s url' skip).cached_eq, keptFrom]
    split
    · cases hcopy : (call network s url' skip).copy? with
      | none => rfl
      | some copy => exact hcopy.symm
    · exact ih
  | purge _ kept ih =>
    rw [keptFrom, ArchiveCache.get?_keep]
    split
    · exact ih
    · rfl
  | elapse _ now n ih => exact ih

/-- A copy has the body that was received. -/
lemma Call.received?_of_copy? {c : Call} {e : CacheEntry} (h : c.copy? = some (copyOf e)) :
    c.received? = some e.body := by
  obtain ⟨validators, -, h⟩ := Option.bind_eq_some_iff.mp h
  obtain ⟨body, hbody, h⟩ := Option.map_eq_some_iff.mp h
  cases h
  exact hbody

/-! ## The origin of a body -/

/-- A copy that is current comes from the call that it was kept from. -/
lemma origin_of_hasStatus {c : Call} (h : c.HasStatus 304) :
    origin c past = keptFrom c.request.url past := by
  obtain ⟨a, ha, hstatus⟩ := h
  rw [origin, ha]
  exact if_pos hstatus

/-- Any other body comes from the call itself. -/
lemma origin_of_not_hasStatus {c : Call} (h : ¬c.HasStatus 304) : origin c past = some c := by
  rw [origin]
  cases ha : c.answer with
  | error e => rfl
  | ok a => exact if_neg fun hstatus => h ⟨a, ha, hstatus⟩

/-- A body that is handed out was received in the call that it comes from. -/
lemma Ends.exists_origin (hpast : History network past s) {url : String} {skip : Bool}
    {r : Except Failure Bytes} {c : ArchiveCache} (h : Ends network s url skip r c) {body : Bytes}
    (hr : r = .ok body) :
    ∃ o, origin (call network s url skip) past = some o ∧ o.received? = some body := by
  cases h with
  | @current e hstatus he =>
    cases hr
    have hcached := hpast.cached_eq url
    rw [he, Option.map_some] at hcached
    obtain ⟨o, ho, hcopy⟩ := Option.bind_eq_some_iff.mp hcached.symm
    exact ⟨o, (origin_of_hasStatus hstatus).trans ho, Call.received?_of_copy? hcopy⟩
  | @received a body' ha hstatus hbody =>
    cases hr
    have hnot : ¬(call network s url skip).HasStatus 304 := fun h => by
      simp [(Call.hasStatus_iff_of_ok ha).mp h] at hstatus
    exact ⟨_, origin_of_not_hasStatus hnot, Call.received?_of_whole ha hstatus hbody⟩
  | failed hcopy hbody => cases hr

/-- After any downloads and drops, a body that a verifying download hands out was received in
answer to one request for its address.  Certificates were not verified for that request exactly if
the download is told that its copy is current, and the copy was kept of a request without. -/
theorem origin_unverified_iff (hpast : History network past s) {url : String} {body : Bytes}
    (hbody : ((fetch url false).run (world network) s).1 = .ok body) :
    ∃ o, origin (call network s url false) past = some o ∧ o.request.url = url ∧
      o.received? = some body ∧ (o = call network s url false ∨ .fetched o ∈ past) ∧
      (o.request.verified = false ↔ (call network s url false).HasStatus 304 ∧
        ∃ o', LastKept url past o' ∧ o'.request.verified = false) := by
  obtain ⟨o, ho, hreceived⟩ := (ends network s url false).exists_origin hpast hbody
  refine ⟨o, ho, ?_⟩
  by_cases hstatus : (call network s url false).HasStatus 304
  · have hkept : keptFrom url past = some o := (origin_of_hasStatus hstatus).symm.trans ho
    have hlast := keptFrom_eq_some_iff.mp hkept
    have ⟨hhas, _, since, earlier, hsplit, _⟩ := hlast
    refine ⟨hhas.1, hreceived, .inr (by simp [hsplit]), ?_⟩
    constructor
    · exact fun h => ⟨hstatus, o, hlast, h⟩
    · rintro ⟨-, o', ho', h⟩
      cases hkept.symm.trans (keptFrom_eq_some_iff.mpr ho')
      exact h
  · cases (origin_of_not_hasStatus hstatus).symm.trans ho
    exact ⟨rfl, hreceived, .inl rfl, iff_of_false nofun fun h => hstatus h.1⟩

/-- An archive that never changes. -/
def lasting (_n : Unit) (_url : String) : Representation :=
  ⟨some "v1", some "monday", [1]⟩

/-- A dropped copy is received anew, and what a verifying download then hands out comes from
verifying downloads only. -/
theorem origin_verified_after_drop : ∃ past s o, History (server lasting) past s ∧
    (call (server lasting) s "u" false).HasStatus 304 ∧
    origin (call (server lasting) s "u" false) past = some o ∧ o.received? = some [1] ∧
    o.request.verified = true := by
  have hstart : History (server lasting) [] ({}, ()) := .start ()
  have hpast := ((hstart.fetch "u" true).purge fun _ => false).fetch "u" false
  obtain ⟨o, ho, -, hreceived, -, -⟩ := @origin_unverified_iff _ _ _ _ hpast "u" [1] rfl
  refine ⟨_, _, o, hpast, ⟨_, rfl, rfl⟩, ho, hreceived, ?_⟩
  cases ho
  rfl

/-- What a download without verification has received is handed out by a verifying one, and no
verifying download has ever received it. -/
theorem unverified_body_is_handed_out : ∃ past s, History (server lasting) past s ∧
    ((fetch "u" false).run (world (server lasting)) s).1 = .ok [1] ∧
    ∀ c, c = call (server lasting) s "u" false ∨ .fetched c ∈ past →
      c.request.verified = true → c.received? = none := by
  have hstart : History (server lasting) [] ({}, ()) := .start ()
  have hpast := hstart.fetch "u" true
  refine ⟨_, _, hpast, rfl, ?_⟩
  rintro c (rfl | hmem) hverified
  · rfl
  · cases List.mem_singleton.mp hmem
    cases hverified

end Download

end PipelineStacks
