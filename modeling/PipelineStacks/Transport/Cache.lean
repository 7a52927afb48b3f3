import PipelineStacks.SortedMap
import PipelineStacks.Text.Utf8

/-!
# The cache of archives

Bodies of web addresses, each with the two validators by which a server tells whether it is still
current.  Only answers with both validators are kept.  Entries that were not used for some time are
purged; time is counted in ticks of any length.
-/

namespace PipelineStacks

/-- A body with its validators. -/
structure CacheEntry where
  etag : String
  date : String
  body : Bytes
  lastUsed : Nat
deriving DecidableEq, Repr, Inhabited

/-- The cache, by web address. -/
abbrev ArchiveCache := SortedMap String CacheEntry

namespace ArchiveCache

/-- The tag and the date of a body. -/
def validators (c : ArchiveCache) (url : String) : Option (String × String) :=
  (c.get? url).map fun e => (e.etag, e.date)

/-- The body of an address, which counts as used now. -/
def hit (c : ArchiveCache) (now : Nat) (url : String) : Option Bytes × ArchiveCache :=
  match c.get? url with
  | some e => (some e.body, c.insert url { e with lastUsed := now })
  | none => (none, c)

/-- Keeps the body of an answer that has both validators.  Without them the address is forgotten. -/
def store (c : ArchiveCache) (now : Nat) (url : String) (etag date : Option String)
    (body : Bytes) : ArchiveCache :=
  match etag, date with
  | some etag, some date => c.insert url ⟨etag, date, body, now⟩
  | _, _ => c.erase url

/-- The entry was used at most `maxAge` ticks ago. -/
def isFresh (now maxAge : Nat) (e : CacheEntry) : Bool :=
  now - e.lastUsed ≤ maxAge

/-- Forgets the entries that were last used more than `maxAge` ticks ago, and tells how many. -/
def purge (c : ArchiveCache) (now maxAge : Nat) : Nat × ArchiveCache :=
  let kept := c.filter fun _ e => isFresh now maxAge e
  (c.size - kept.size, kept)

/-- How often a task that purges every `interval` seconds has done so after some time.  The task
that never waits never purges. -/
def purgesWithin (interval elapsed : Nat) : Nat :=
  elapsed / interval

/-- What a purge does to a look-up. -/
theorem get?_purge (c : ArchiveCache) (now maxAge : Nat) (url : String) :
    (c.purge now maxAge).2.get? url = (c.get? url).filter (isFresh now maxAge) :=
  SortedMap.get?_filter c (fun _ e => isFresh now maxAge e) url

end ArchiveCache

end PipelineStacks
