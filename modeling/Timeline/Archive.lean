import Timeline.Page

/-!
# Archives

An archive is the storage behind a conversation: the whole sequence of its entries, read in pages
of one size. Page `k` holds the entries from `k * pageSize` on; the last page is the newest one
and may be shorter. Reads are counted, and the reads with certain numbers fail, as those of a
storage that is unavailable now and then would.
-/

namespace Timeline

structure Archive where
  /-- All entries, oldest first. -/
  entries : List Entry
  /-- An archive with page size 0 has no pages. -/
  pageSize : Nat
  /-- The numbers of the reads that fail. -/
  outages : List Nat
  /-- The number of reads so far. -/
  reads : Nat
  deriving DecidableEq, Repr

/-- Why an archive cannot answer. -/
inductive ArchiveError
  | unavailable
  | unknownMessage (id : String)
  | noPage (number : Nat)
  deriving DecidableEq, Repr

def ArchiveError.message : ArchiveError → String
  | .unavailable => "storage unavailable"
  | .unknownMessage id => "unknown message " ++ id
  | .noPage number => "no chunk " ++ toString number

namespace Archive

def empty : Archive := ⟨[], 0, [], 0⟩

/-- Store one more entry. -/
def push (a : Archive) (e : Entry) : Archive := { a with entries := a.entries ++ [e] }

/-- The number of the newest page; an archive without entries has one empty page. -/
def lastNumber (a : Archive) : Nat := (max a.entries.length 1 - 1) / a.pageSize

def page? (a : Archive) (number : Nat) : Option Page :=
  if a.pageSize = 0 ∨ a.lastNumber < number then none
  else
    let page := Page.numbered number ((a.entries.drop (number * a.pageSize)).take a.pageSize)
    some (if number = a.lastNumber then page.asNewest else page)

/-- The number of the page in which a message stands. -/
def numberOf? (a : Archive) (id : String) : Option Nat :=
  (a.entries.findIdx? fun e => e.id? == some id).map (· / max a.pageSize 1)

/-- The page with a number, by the number alone. -/
def lookUp (a : Archive) (number : Nat) : Except ArchiveError Page :=
  match a.page? number with
  | some page => .ok page
  | none => .error (.noPage number)

/-- What the next read answers to a request. -/
def answer (a : Archive) (r : PageRequest) : Except ArchiveError Page :=
  if a.reads ∈ a.outages then .error .unavailable
  else
    match r.anchor with
    | .number n => a.lookUp n
    | .message id =>
      match a.numberOf? id with
      | some n => a.lookUp n
      | none => .error (.unknownMessage id)

/-- Count a read. -/
def countRead (a : Archive) : Archive := { a with reads := a.reads + 1 }

/-- Read the page that a request names. -/
def fetch (a : Archive) (r : PageRequest) : Archive × Except ArchiveError Page :=
  (a.countRead, a.answer r)

end Archive

end Timeline
