import Interlingua.Catalog

namespace Interlingua

/-- A list whose built-in entries are installed on its first use. -/
structure Table (α : Type) where
  builtins : List α
  entries : List α
  installed : Bool

namespace Table

variable {α : Type}

def fresh (builtins : List α) : Table α := ⟨builtins, [], false⟩

def install (t : Table α) : Table α :=
  if t.installed then t else { t with entries := t.entries ++ t.builtins, installed := true }

def register (t : Table α) (entry : α) : Table α :=
  let t := t.install
  { t with entries := t.entries ++ [entry] }

def listed (t : Table α) : List α := t.install.entries

theorem install_install (t : Table α) : t.install.install = t.install := by
  rcases t with ⟨builtins, entries, _ | _⟩ <;> rfl

@[simp]
theorem listed_fresh (builtins : List α) : (fresh builtins).listed = builtins := rfl

@[simp]
theorem entries_install (t : Table α) : t.install.entries = t.listed := rfl

@[simp]
theorem listed_install (t : Table α) : t.install.listed = t.listed := by
  rw [listed, install_install, entries_install]

@[simp]
theorem listed_register (t : Table α) (entry : α) :
    (t.register entry).listed = t.listed ++ [entry] := by
  rcases t with ⟨builtins, entries, _ | _⟩ <;> rfl

end Table

inductive Request where
  | addReader (reader : Reader)
  | addWriter (writer : Writer)
  | readerOf (language : String)
  | readerOfFile (extension : String)
  | writerOf (language : String)
  | writerOfFile (extension : String)
  | readers
  | writers
  | route (source target : String)
  | routeOfFiles (source target : String)
  | routes

inductive Answer where
  | added
  | reader (found : Option Reader)
  | writer (found : Option Writer)
  | readers (all : List Reader)
  | writers (all : List Writer)
  | route (found : Option Route)
  | routes (all : List Route)

structure Registry where
  readers : Table Reader
  writers : Table Writer

namespace Registry

def fresh : Registry := ⟨.fresh Catalog.builtin.readers, .fresh Catalog.builtin.writers⟩

def catalog (r : Registry) : Catalog := ⟨r.readers.entries, r.writers.entries⟩

def openReaders (r : Registry) : Registry := { r with readers := r.readers.install }

def openWriters (r : Registry) : Registry := { r with writers := r.writers.install }

/-- A pair of what is found among the readers and what is then found among the writers, which are
not opened when there is no reader. -/
def pair (r : Registry) (reader : Catalog → Option Reader) (writer : Catalog → Option Writer) :
    Option Route × Registry :=
  let r := r.openReaders
  match reader r.catalog with
  | none => (none, r)
  | some reader =>
    let r := r.openWriters
    ((writer r.catalog).map (⟨reader, ·⟩), r)

/-- The answer to a request and the registry after it. Only the tables that are asked are opened. -/
def answer (r : Registry) : Request → Answer × Registry
  | .addReader reader => (.added, { r with readers := r.readers.register reader })
  | .addWriter writer => (.added, { r with writers := r.writers.register writer })
  | .readerOf language =>
    let r := r.openReaders
    (.reader (r.catalog.readerOf language), r)
  | .readerOfFile extension =>
    let r := r.openReaders
    (.reader (r.catalog.readerOfFile extension), r)
  | .writerOf language =>
    let r := r.openWriters
    (.writer (r.catalog.writerOf language), r)
  | .writerOfFile extension =>
    let r := r.openWriters
    (.writer (r.catalog.writerOfFile extension), r)
  | .readers =>
    let r := r.openReaders
    (.readers r.catalog.readers, r)
  | .writers =>
    let r := r.openWriters
    (.writers r.catalog.writers, r)
  | .route source target =>
    let (found, r) := r.pair (·.readerOf source) (·.writerOf target)
    (.route found, r)
  | .routeOfFiles source target =>
    let (found, r) := r.pair (·.readerOfFile source) (·.writerOfFile target)
    (.route found, r)
  | .routes =>
    let r := r.openWriters.openReaders
    (.routes r.catalog.routes, r)

def run (r : Registry) : List Request → List Answer × Registry
  | [] => ([], r)
  | request :: requests =>
    let (a, r) := r.answer request
    let (as, r) := r.run requests
    (a :: as, r)

end Registry

end Interlingua
