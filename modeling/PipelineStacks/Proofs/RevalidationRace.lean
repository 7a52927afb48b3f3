import PipelineStacks.Proofs.Interleaving
import PipelineStacks.Proofs.Revalidation

/-!
# Downloads side by side

Downloads share one cache, and entries are dropped from it at any time.  A download looks for
validators, sends its request and, told that its copy is current, looks for the copy: others have
their turns in between.  `exists_window` says what it hands out then, in terms of what the turns in
the window have put into the cache and taken from it (`lastEffect`).

`current_copy_of_window` is the case in which no other body is put there meanwhile: then all depends
on whether the copy was `Removed`.  `current_copy_is_gone` has a schedule in which the copy is not
there any more, and one in which another is.
-/

namespace PipelineStacks

open Program (Concurrent Exchange Rest Turn rest_ask settle)

/-- What the users of a cache ask: downloads ask their questions, and a purge drops entries. -/
inductive CacheRequest
  | download (q : Download.Question)
  | purge (kept : String → Bool)

namespace CacheRequest

open Download (State Network fetch goOn handOut conditions noCopy receive)

/-- The answer to a request. -/
def Answer : CacheRequest → Type
  | .download q => q.Answer
  | .purge _ => Unit

/-- A computation that uses a cache. -/
abbrev Task (α : Type) : Type := Program Answer α

/-- A download among the users of a cache. -/
def ofDownload {α : Type} (p : Download.Task α) : Task α :=
  p.expand fun q => Program.question (.download q)

/-- The validators of an address were looked up. -/
def looked (url : String) (validators : Option (String × String)) : Exchange Answer :=
  ⟨.download (.validators url), validators⟩

/-- A request was sent and answered. -/
def sent (request : WebRequest) (answer : Except Failure WebAnswer) : Exchange Answer :=
  ⟨.download (.send request), answer⟩

/-- The copy of an address was looked up. -/
def hit (url : String) (body : Option Bytes) : Exchange Answer :=
  ⟨.download (.hit url), body⟩

/-! ## The copy of an address -/

/-- What is cached of an address: the validators and the body. -/
abbrev Copy : Type := (String × String) × Bytes

/-- What a request does to the copy of an address, unless it leaves it as it is. -/
def effectOn (url : String) : CacheRequest → Option (Option Copy)
  | .download (.store url' etag date body) =>
    if url = url' then
      some (etag.bind fun etag => date.map fun date => ((etag, date), body))
    else none
  | .purge kept => if kept url then none else some none
  | _ => none

/-- The request puts a copy of an address into the cache. -/
def Puts (url : String) (r : CacheRequest) : Prop :=
  ∃ copy, r.effectOn url = some (some copy)

/-- The request takes the copy of an address from the cache. -/
def Drops (url : String) (r : CacheRequest) : Prop :=
  r.effectOn url = some none

/-- The request puts a copy of an address into the cache that has another body. -/
def PutsOther (url : String) (body : Bytes) (r : CacheRequest) : Prop :=
  ∃ copy, r.effectOn url = some (some copy) ∧ copy.2 ≠ body

variable {σ κ : Type}

/-- In some turns the copy of an address was taken from the cache, and none was put there since. -/
def Removed (url : String) (turns : List (Turn κ Answer)) : Prop :=
  ∃ front x back, turns = front ++ x :: back ∧ x.2.1.Drops url ∧ ∀ y ∈ back, ¬y.2.1.Puts url

/-- What the last turn that does anything to the copy of an address leaves. -/
def lastEffect (url : String) (turns : List (Turn κ Answer)) : Option (Option Copy) :=
  (turns.filterMap fun x => x.2.1.effectOn url).getLast?

/-- What is cached of an address. -/
def copy? (s : State × σ) (url : String) : Option Copy :=
  (s.1.cache.get? url).map Download.copyOf

/-- The world in which all use one cache. -/
def world (network : Network σ) : Program.World Answer (State × σ) := fun r s =>
  match r with
  | .download q => Download.world network q s
  | .purge kept => ((), { s.1 with cache := s.1.cache.keep kept }, s.2)

variable {network : Network σ} {s : State × σ} {url : String}

/-- What a request leaves of the copy of an address. -/
lemma copy?_world (r : CacheRequest) :
    copy? (world network r s).2 url = (r.effectOn url).getD (copy? s url) := by
  cases r with
  | purge kept =>
    simp only [copy?, world, effectOn, ArchiveCache.get?_keep]
    cases kept url <;> rfl
  | download q =>
    cases q with
    | validators _ | send _ | countHit => rfl
    | hit url' =>
      simp only [copy?, world, effectOn, Download.world, ArchiveCache.hit]
      cases he : s.1.cache.get? url' with
      | none => rfl
      | some e => exact ArchiveCache.get?_insert_used he s.1.now Download.copyOf rfl url
    | store url' etag date body =>
      simp only [copy?, world, effectOn, Download.world, ArchiveCache.get?_store]
      split
      · cases etag <;> cases date <;> rfl
      · rfl

lemma lastEffect_append (xs ys : List (Turn κ Answer)) :
    lastEffect url (xs ++ ys) = (lastEffect url ys).or (lastEffect url xs) := by
  rw [lastEffect, List.filterMap_append, List.getLast?_append]
  rfl

lemma lastEffect_cons (x : Turn κ Answer) (turns : List (Turn κ Answer)) :
    lastEffect url (x :: turns) = (lastEffect url turns).or (x.2.1.effectOn url) := by
  have hx : lastEffect url [x] = x.2.1.effectOn url := by
    cases h : x.2.1.effectOn url <;> simp [lastEffect, h]
  rw [← hx, ← lastEffect_append]
  rfl

/-- What is left is the effect of some turn. -/
lemma exists_of_lastEffect {turns : List (Turn κ Answer)} {effect : Option Copy}
    (h : lastEffect url turns = some effect) : ∃ x ∈ turns, x.2.1.effectOn url = some effect :=
  List.mem_filterMap.mp (List.mem_of_getLast? h)

/-- What some turns leave of the copy of an address. -/
theorem copy?_settle (turns : List (Turn κ Answer)) :
    copy? (settle (world network) s turns) url = (lastEffect url turns).getD (copy? s url) := by
  induction turns generalizing s with
  | nil => rfl
  | cons x turns ih =>
    have hstep : settle (world network) s (x :: turns) =
        settle (world network) (world network x.2.1 s).2 turns := rfl
    rw [hstep, ih, copy?_world, lastEffect_cons]
    cases lastEffect url turns <;> rfl

/-- Turns leave no copy exactly if they have removed it. -/
theorem lastEffect_eq_some_none_iff {turns : List (Turn κ Answer)} :
    lastEffect url turns = some none ↔ Removed url turns := by
  constructor
  · intro h
    obtain ⟨effects, hlast⟩ := List.getLast?_eq_some_iff.mp h
    obtain ⟨earlier, rest, rfl, -, hrest⟩ := List.filterMap_eq_append_iff.mp hlast
    obtain ⟨skipped, x, back, rfl, -, hdrop, hback⟩ := List.filterMap_eq_cons_iff.mp hrest
    refine ⟨earlier ++ skipped, x, back, (List.append_assoc ..).symm, hdrop, ?_⟩
    rintro y hy ⟨copy, hcopy⟩
    cases (List.filterMap_eq_nil_iff.mp hback y hy).symm.trans hcopy
  · rintro ⟨front, x, back, rfl, hdrop, hback⟩
    rw [lastEffect_append, lastEffect_cons, hdrop]
    cases hlast : lastEffect url back with
    | none => rfl
    | some effect =>
      obtain ⟨y, hy, heffect⟩ := exists_of_lastEffect hlast
      cases effect with
      | none => rfl
      | some copy => exact (hback y hy ⟨copy, heffect⟩).elim

/-- A copy that is not removed has the same body after turns that put no other body there. -/
lemma body_of_not_removed {turns : List (Turn κ Answer)} {copy : Copy}
    (hputs : ∀ x ∈ turns, ¬x.2.1.PutsOther url copy.2) (hstays : ¬Removed url turns) :
    ((lastEffect url turns).getD (some copy)).map (·.2) = some copy.2 := by
  cases hlast : lastEffect url turns with
  | none => rfl
  | some effect =>
    cases effect with
    | none => exact (hstays (lastEffect_eq_some_none_iff.mp hlast)).elim
    | some copy' =>
      obtain ⟨x, hx, heffect⟩ := exists_of_lastEffect hlast
      have hsame : copy'.2 = copy.2 := by
        by_contra hother
        exact hputs x hx ⟨copy', heffect, hother⟩
      exact congrArg some hsame

/-! ## What a download has asked -/

/-- A download that asks is left as it is, or it has had an exchange with its question first. -/
lemma rest_ofDownload_ask {α : Type} {q : Download.Question}
    {next : q.Answer → Download.Task α} {log : List (Exchange Answer)} {p : Task α}
    (h : Rest (ofDownload (.ask q next)) log p) :
    (log = [] ∧ ∀ r, p ≠ .done r) ∨ ∃ answer log',
      log = ⟨.download q, answer⟩ :: log' ∧ Rest (ofDownload (next answer)) log' p := by
  rcases rest_ask h with ⟨rfl, rfl⟩ | ⟨answer, log', rfl, h'⟩
  · exact .inl ⟨rfl, nofun⟩
  · exact .inr ⟨answer, log', rfl, h'⟩

/-- Where nothing is sent nothing was sent. -/
lemma sent_notMem_of_silent {α : Type} {p : Download.Task α} (hp : Download.Silent p)
    {log : List (Exchange Answer)} {p' : Task α} (h : Rest (ofDownload p) log p')
    (request : WebRequest) (answer : Except Failure WebAnswer) : sent request answer ∉ log := by
  induction p generalizing log with
  | done a =>
    cases h
    exact List.not_mem_nil
  | ask q next ih =>
    rcases rest_ofDownload_ask h with ⟨rfl, -⟩ | ⟨answer', log', rfl, h'⟩
    · exact List.not_mem_nil
    · refine List.not_mem_cons_of_ne_of_not_mem (fun heq => ?_) (ih _ (hp.2 _) h')
      cases heq
      exact hp.1 request rfl

/-- A download that was told that its copy is current has looked the copy up, or is about to. -/
lemma rest_receive_of_current {a : WebAnswer} (h304 : a.status = 304)
    {log : List (Exchange Answer)} {p : Task (Except Failure Bytes)}
    (h : Rest (ofDownload (receive url a)) log p) :
    (log.length < 2 ∧ ∀ r, p ≠ .done r) ∨ ∃ body,
      log = [⟨.download .countHit, ()⟩, hit url body] ∧ p = .done (handOut url body) := by
  rw [Download.receive_of_current url h304] at h
  rcases rest_ofDownload_ask h with ⟨rfl, hp⟩ | ⟨u, log', rfl, h'⟩
  · exact .inl ⟨Nat.zero_lt_two, hp⟩
  rcases rest_ofDownload_ask h' with ⟨rfl, hp⟩ | ⟨body, log'', rfl, h''⟩
  · exact .inl ⟨Nat.one_lt_two, hp⟩
  cases h''
  exact .inr ⟨body, rfl, rfl⟩

/-- What a download has asked that was told that its copy is current. -/
lemma rest_fetch_of_current {skip : Bool} {log : List (Exchange Answer)}
    {p : Task (Except Failure Bytes)} (h : Rest (ofDownload (fetch url skip)) log p)
    {request : WebRequest} {a : WebAnswer} (hsent : sent request (.ok a) ∈ log)
    (h304 : a.status = 304) (hlog : 4 ≤ log.length ∨ ∃ r, p = .done r) :
    ∃ validators body, request = ⟨url, conditions validators, !skip⟩ ∧
      log = [looked url validators, sent request (.ok a), ⟨.download .countHit, ()⟩, hit url body] ∧
      p = .done (handOut url body) := by
  rw [Download.fetch_eq] at h
  rcases rest_ofDownload_ask h with ⟨rfl, -⟩ | ⟨validators, log', rfl, h'⟩
  · cases hsent
  rcases rest_ofDownload_ask h' with ⟨rfl, -⟩ | ⟨r, log'', rfl, h''⟩
  · cases List.mem_singleton.mp hsent
  have hnone := sent_notMem_of_silent (Download.silent_goOn url skip r) h'' request (.ok a)
  have hmem : sent request (.ok a) = sent ⟨url, conditions validators, !skip⟩ r := by
    rcases List.mem_cons.mp hsent with heq | hsent
    · cases heq
    · exact (List.mem_cons.mp hsent).resolve_right hnone
  cases hmem
  rcases rest_receive_of_current h304 h'' with ⟨hshort, hnot⟩ | ⟨body, rfl, rfl⟩
  · rcases hlog with hlength | ⟨r, hdone⟩
    · simp only [List.length_cons] at hlength
      omega
    · exact (hnot r hdone).elim
  · exact ⟨validators, body, rfl, rfl, rfl⟩

/-! ## What a download hands out -/

/-- The requests of a download are equal for equal validators only. -/
lemma conditions_injective : Function.Injective conditions := by
  intro v v' h
  cases v <;> cases v' <;> simp_all [conditions, Prod.ext_iff]

/-- What is found when the copy of an address is looked up. -/
lemma eq_of_hit {body : Option Bytes} (h : body = (world network (.download (.hit url)) s).1) :
    body = (copy? s url).map (·.2) := by
  have hhit : body = (s.1.cache.hit s.1.now url).1 := h
  rw [hhit, ArchiveCache.hit, copy?]
  cases s.1.cache.get? url <;> rfl

/-- Validators that are found are those of an entry. -/
lemma exists_of_looked {etag date : String}
    (h : some (etag, date) = (world network (.download (.validators url)) s).1) :
    ∃ e, s.1.cache.get? url = some e ∧ e.etag = etag ∧ e.date = date := by
  have hvalidators : some (etag, date) = s.1.cache.validators url := h
  rw [ArchiveCache.validators] at hvalidators
  obtain ⟨e, he, heq⟩ := Option.map_eq_some_iff.mp hvalidators.symm
  exact ⟨e, he, congrArg Prod.fst heq, congrArg Prod.snd heq⟩

variable [DecidableEq κ]

/-- A download in the company of others that is told that its copy is current, and has had four
turns, has come to its end.  It has found its validators in the cache, and hands out what the turns
from then on have left of the copy. -/
theorem exists_window {c : Concurrent κ Answer (Except Failure Bytes) (State × σ)} {i : κ}
    {skip : Bool} (hi : c.threads i = ofDownload (fetch url skip)) {schedule : List κ}
    (hturns : 4 ≤ schedule.count i) {etag date : String} {a : WebAnswer}
    (hsent : (i, sent ⟨url, conditions (some (etag, date)), !skip⟩ (.ok a)) ∈
      c.turns (world network) schedule) (h304 : a.status = 304) :
    ∃ earlier between later e body, c.turns (world network) schedule =
        earlier ++ (i, looked url (some (etag, date))) :: (between ++ (i, hit url body) :: later) ∧
      (settle (world network) c.state earlier).1.cache.get? url = some e ∧
      e.etag = etag ∧ e.date = date ∧
      (c.after (world network) schedule).threads i = .done (handOut url
        (((lastEffect url between).getD (some (Download.copyOf e))).map (·.2))) := by
  have hrest := c.rest_after (world network) i schedule
  rw [hi] at hrest
  have hlog := (c.length_ownOf_or_done (world network) i schedule).imp_left
    fun h => h ▸ hturns
  obtain ⟨validators, body, hrequest, hown, hdone⟩ :=
    rest_fetch_of_current hrest (Concurrent.mem_ownOf.mpr hsent) h304 hlog
  obtain rfl : some (etag, date) = validators :=
    conditions_injective (congrArg WebRequest.headers hrequest)
  obtain ⟨earlier, rest, hsplit, -, hrestOwn⟩ := Concurrent.exists_of_ownOf [] hown
  obtain ⟨between, later, rfl, -, -⟩ := Concurrent.exists_of_ownOf [_, _] hrestOwn
  -- both look-ups are answered with what the cache holds then
  have hanswered : Program.Answered (world network) c.state (c.turns (world network) schedule) :=
    c.answered_turns schedule
  rw [hsplit, Program.answered_append] at hanswered
  obtain ⟨-, hlooked, hbetween⟩ := hanswered
  obtain ⟨-, hbody, -⟩ := Program.answered_append.mp hbetween
  obtain ⟨e, he, hetag, hdate⟩ := exists_of_looked hlooked
  refine ⟨earlier, between, later, e, body, hsplit, he, hetag, hdate, ?_⟩
  have hcopy : copy? (settle (world network) c.state earlier) url = some (Download.copyOf e) := by
    rw [copy?, he, Option.map_some]
  have hfound : body = ((lastEffect url between).getD
      (copy? (settle (world network) c.state earlier) url)).map (·.2) := by
    refine (eq_of_hit hbody).trans ?_
    rw [copy?_settle]
    rfl
  rw [hdone, hfound, hcopy]

/-- A download that sent validators and is told that its copy is current hands out the body that was
cached with them, if since it looked them up no other body was put there and the copy was not
removed.  If the copy was removed it fails and says so. -/
theorem current_copy_of_window {c : Concurrent κ Answer (Except Failure Bytes) (State × σ)} {i : κ}
    {skip : Bool} (hi : c.threads i = ofDownload (fetch url skip)) {schedule : List κ}
    (hturns : 4 ≤ schedule.count i) {etag date : String} {a : WebAnswer}
    (hsent : (i, sent ⟨url, conditions (some (etag, date)), !skip⟩ (.ok a)) ∈
      c.turns (world network) schedule) (h304 : a.status = 304) :
    ∃ earlier between later e body result, c.turns (world network) schedule =
        earlier ++ (i, looked url (some (etag, date))) :: (between ++ (i, hit url body) :: later) ∧
      (settle (world network) c.state earlier).1.cache.get? url = some e ∧
      e.etag = etag ∧ e.date = date ∧
      (c.after (world network) schedule).threads i = .done result ∧
      (Removed url between → result = .error (noCopy url)) ∧
      ((∀ x ∈ between, ¬x.2.1.PutsOther url e.body) → ¬Removed url between →
        result = .ok e.body) := by
  obtain ⟨earlier, between, later, e, body, hsplit, he, hetag, hdate, hdone⟩ :=
    exists_window hi hturns hsent h304
  refine ⟨earlier, between, later, e, body, _, hsplit, he, hetag, hdate, hdone, ?_, ?_⟩
  · intro hremoved
    rw [lastEffect_eq_some_none_iff.mpr hremoved]
    rfl
  · intro hputs hstays
    have hbody : ((lastEffect url between).getD (some (Download.copyOf e))).map (·.2) =
        some e.body := body_of_not_removed hputs hstays
    rw [hbody]
    rfl

/-! ## Three downloads and a purge -/

/-- Those who use the cache: a download that fills it, one that revalidates, one that comes later,
and a purge. -/
inductive User
  | filler
  | checker
  | latecomer
  | cleaner
deriving DecidableEq

namespace User

/-- An archive that is replaced after two requests. -/
def release (requests : ℕ) (_url : String) : Download.Representation :=
  if requests < 2 then ⟨some "v1", some "monday", [1]⟩ else ⟨some "v2", some "tuesday", [2]⟩

/-- The server of the archive counts its requests. -/
def host : Network ℕ := fun request n =>
  ((Download.server release request n).1, n + 1)

/-- The server of an archive that stays as it is. -/
def steadyHost : Network ℕ :=
  Download.server fun _ _ => ⟨some "v1", some "monday", [1]⟩

/-- All use an empty cache. -/
def all : Concurrent User Answer (Except Failure Bytes) (State × ℕ) where
  threads
    | cleaner => .ask (.purge fun _ => false) fun _ => .done (.ok [])
    | _ => ofDownload (fetch "u" false)
  state := ({}, 0)

/-- The cache is filled, and another download has looked its validators up. -/
def untilSent : List User :=
  [filler, filler, filler, checker]

/-- What that download sends next, and is answered. -/
def told : Turn User Answer :=
  (checker, sent ⟨"u", conditions (some ("v1", "monday")), !false⟩
    (.ok ⟨304, some "v1", some "monday", .ok []⟩))

end User

open User in
/-- Two downloads find the cache empty.  One of them puts its copy there after a third has looked up
the validators of the other; the third is told that its copy is current and hands it out. -/
theorem current_copy_put_again :
    let filled := all.after (world steadyHost) [latecomer, latecomer, filler, filler, filler]
    let schedule := [checker, latecomer, checker, checker, checker]
    told ∈ filled.turns (world steadyHost) schedule ∧
    (∃ x ∈ filled.turns (world steadyHost) schedule, x.2.1.Puts "u") ∧
    ∃ earlier between later e body, filled.turns (world steadyHost) schedule =
        earlier ++ (checker, looked "u" (some ("v1", "monday"))) ::
          (between ++ (checker, hit "u" body) :: later) ∧
      (settle (world steadyHost) filled.state earlier).1.cache.get? "u" = some e ∧
      (∀ x ∈ between, ¬x.2.1.PutsOther "u" e.body) ∧ ¬Removed "u" between ∧
      (filled.after (world steadyHost) schedule).threads checker = .done (.ok e.body) := by
  intro filled schedule
  have htold : told ∈ filled.turns (world steadyHost) schedule :=
    List.mem_cons_of_mem _ (List.mem_cons_of_mem _ List.mem_cons_self)
  have hstart : filled.threads checker = ofDownload (fetch "u" false) := rfl
  have hturns : 4 ≤ schedule.count checker := by decide
  have hfilled : copy? filled.state "u" = some (("v1", "monday"), [1]) := rfl
  have hputs : ∃ x ∈ filled.turns (world steadyHost) schedule,
      x.2.1.effectOn "u" = some (some (("v1", "monday"), [1])) := by decide
  have hsame : ∀ x ∈ filled.turns (world steadyHost) schedule, x.2.1.effectOn "u" = none ∨
      x.2.1.effectOn "u" = some (some (("v1", "monday"), [1])) := by decide
  obtain ⟨earlier, between, later, e, body, result, hsplit, he, -, -, hdone, -, hkept⟩ :=
    current_copy_of_window hstart hturns htold rfl
  have hno : ∀ x ∈ earlier ++ between, ¬x.2.1.PutsOther "u" [1] ∧ ¬x.2.1.Drops "u" := by
    intro x hx
    have hmem : x ∈ filled.turns (world steadyHost) schedule := by
      rw [hsplit]
      rcases List.mem_append.mp hx with hx | hx
      · exact List.mem_append_left _ hx
      · exact List.mem_append_right _ (List.mem_cons_of_mem _ (List.mem_append_left _ hx))
    rcases hsame x hmem with heffect | heffect
    · simp [PutsOther, Drops, heffect]
    · simp [PutsOther, Drops, heffect]
  have hstays : ∀ turns, (∀ x ∈ turns, x ∈ earlier ++ between) → ¬Removed "u" turns := by
    rintro turns hsub ⟨front, x, back, rfl, hdrop, -⟩
    exact (hno x (hsub x (List.mem_append_right _ List.mem_cons_self))).2 hdrop
  have hbody : e.body = [1] := by
    have hcopy : copy? (settle (world steadyHost) filled.state earlier) "u" =
        (lastEffect "u" earlier).getD (copy? filled.state "u") := copy?_settle earlier
    have hfirst : ((lastEffect "u" earlier).getD (some (("v1", "monday"), [1]))).map (·.2) =
        some [1] :=
      body_of_not_removed (fun x hx => (hno x (List.mem_append_left _ hx)).1)
        (hstays earlier fun x hx => List.mem_append_left _ hx)
    rw [hfilled, copy?, he] at hcopy
    rw [← hcopy] at hfirst
    exact Option.some.inj hfirst
  have hother : ∀ x ∈ between, ¬x.2.1.PutsOther "u" e.body := by
    intro x hx
    rw [hbody]
    exact (hno x (List.mem_append_right _ hx)).1
  have hwhole : ¬Removed "u" between := hstays between fun x hx => List.mem_append_right _ hx
  obtain ⟨x, hx, hput⟩ := hputs
  refine ⟨htold, ⟨x, hx, _, hput⟩, earlier, between, later, e, body, hsplit, he, hother, hwhole, ?_⟩
  rw [hdone, hkept hother hwhole]

open User in
/-- A download is told that its copy is current, and the copy is cached when it sends its request.
If the cache is emptied before the copy is looked up, it fails; if another version is put there, it
hands out that. -/
theorem current_copy_is_gone :
    copy? (all.after (world host) untilSent).state "u" = some (("v1", "monday"), [1]) ∧
    (all.after (world host) untilSent).turn? (world host) checker = some told ∧
    (all.after (world host) (untilSent ++ [checker, cleaner, checker, checker])).threads checker =
      .done (.error (noCopy "u")) ∧
    (all.after (world host)
      (untilSent ++ [checker, latecomer, latecomer, latecomer, checker, checker])).threads checker =
      .done (.ok [2]) :=
  ⟨rfl, rfl, rfl, rfl⟩

end CacheRequest

end PipelineStacks
