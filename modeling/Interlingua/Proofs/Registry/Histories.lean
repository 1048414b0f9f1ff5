import Interlingua.Registry

namespace Interlingua

def Request.reader? : Request → Option Reader
  | .addReader reader => some reader
  | _ => none

def Request.writer? : Request → Option Writer
  | .addWriter writer => some writer
  | _ => none

def Answer.isFound : Answer → Bool
  | .reader found => found.isSome
  | .writer found => found.isSome
  | .route found => found.isSome
  | _ => false

namespace Catalog

/-- What is listed after a history: the built-in languages and, behind them, those that were added,
in order. -/
def listed (history : List Request) : Catalog where
  readers := [PowerShell.reader] ++ history.filterMap Request.reader?
  writers := [CSharp.writer, PowerShell.writer] ++ history.filterMap Request.writer?

def pair (reader : Option Reader) (writer : Option Writer) : Option Route :=
  reader.bind fun reader => writer.map fun writer => ⟨reader, writer⟩

/-- What a catalog answers: of all that match, the first. -/
def answer (c : Catalog) : Request → Answer
  | .addReader _ | .addWriter _ => .added
  | .readerOf language => .reader (c.readers.find? (·.language == language))
  | .readerOfFile extension => .reader (c.readers.find? (·.extensions.contains extension))
  | .writerOf language => .writer (c.writers.find? (·.language == language))
  | .writerOfFile extension => .writer (c.writers.find? (·.extension == extension))
  | .readers => .readers c.readers
  | .writers => .writers c.writers
  | .route source target =>
    .route (pair (c.readers.find? (·.language == source)) (c.writers.find? (·.language == target)))
  | .routeOfFiles source target =>
    .route (pair (c.readers.find? (·.extensions.contains source))
      (c.writers.find? (·.extension == target)))
  | .routes => .routes c.routes

def add (c : Catalog) : Request → Catalog
  | .addReader reader => c.addReader reader
  | .addWriter writer => c.addWriter writer
  | _ => c

theorem listed_concat (history : List Request) (request : Request) :
    listed (history ++ [request]) = (listed history).add request := by
  cases request <;>
    simp [listed, add, addReader, addWriter, Request.reader?, Request.writer?]

theorem find?_append_of_isSome {α : Type} {p : α → Bool} {xs : List α} (ys : List α)
    (h : (xs.find? p).isSome) : (xs ++ ys).find? p = xs.find? p := by
  rw [List.find?_append, Option.or_of_isSome h]

theorem isSome_of_pair {reader : Option Reader} {writer : Option Writer}
    (h : (pair reader writer).isSome) : reader.isSome ∧ writer.isSome := by
  cases reader with
  | none => cases h
  | some reader =>
    cases writer with
    | none => cases h
    | some writer => exact ⟨rfl, rfl⟩

/-- An addition hides nothing that was found before. -/
theorem answer_of_isFound {c d : Catalog} {rs : List Reader} {ws : List Writer}
    (hr : d.readers = c.readers ++ rs) (hw : d.writers = c.writers ++ ws) {request : Request}
    (h : (c.answer request).isFound = true) : d.answer request = c.answer request := by
  have hreader {p : Reader → Bool} (h : (c.readers.find? p).isSome) :
      d.readers.find? p = c.readers.find? p := by
    rw [hr, find?_append_of_isSome rs h]
  have hwriter {p : Writer → Bool} (h : (c.writers.find? p).isSome) :
      d.writers.find? p = c.writers.find? p := by
    rw [hw, find?_append_of_isSome ws h]
  cases request with
  | addReader | addWriter | readers | writers | routes => cases h
  | readerOf | readerOfFile => exact congrArg Answer.reader (hreader h)
  | writerOf | writerOfFile => exact congrArg Answer.writer (hwriter h)
  | route | routeOfFiles =>
    obtain ⟨hfound, htarget⟩ := isSome_of_pair h
    rw [answer, hreader hfound, hwriter htarget, answer]

theorem answer_listed_append (past later : List Request) {request : Request}
    (h : ((listed past).answer request).isFound = true) :
    (listed (past ++ later)).answer request = (listed past).answer request := by
  have hreaders : (listed (past ++ later)).readers =
      (listed past).readers ++ later.filterMap Request.reader? := by simp [listed]
  have hwriters : (listed (past ++ later)).writers =
      (listed past).writers ++ later.filterMap Request.writer? := by simp [listed]
  exact answer_of_isFound hreaders hwriters h

end Catalog

namespace Registry

/-- What is listed when the registry is asked. -/
def view (r : Registry) : Catalog := ⟨r.readers.listed, r.writers.listed⟩

theorem view_fresh : fresh.view = Catalog.listed [] := rfl

theorem view_openReaders (r : Registry) : r.openReaders.view = r.view := by
  simp [view, openReaders]

theorem view_openWriters (r : Registry) : r.openWriters.view = r.view := by
  simp [view, openWriters]

theorem pair_eq (r : Registry) {reader : Catalog → Option Reader} {writer : Catalog → Option Writer}
    {p : Reader → Bool} {q : Writer → Bool} (hp : ∀ c, reader c = c.readers.find? p)
    (hq : ∀ c, writer c = c.writers.find? q) :
    (r.pair reader writer).1 = Catalog.pair (r.view.readers.find? p) (r.view.writers.find? q) ∧
      (r.pair reader writer).2.view = r.view := by
  have hopened : reader r.openReaders.catalog = r.view.readers.find? p := hp _
  have hboth : writer r.openReaders.openWriters.catalog = r.view.writers.find? q := hq _
  unfold pair
  simp only [hopened, hboth]
  cases r.view.readers.find? p with
  | none => exact ⟨rfl, r.view_openReaders⟩
  | some reader => exact ⟨rfl, (view_openWriters _).trans r.view_openReaders⟩

theorem answer_eq (r : Registry) (request : Request) :
    (r.answer request).1 = r.view.answer request ∧
      (r.answer request).2.view = r.view.add request := by
  cases request with
  | addReader reader => simp [answer, view, Catalog.answer, Catalog.add, Catalog.addReader]
  | addWriter writer => simp [answer, view, Catalog.answer, Catalog.add, Catalog.addWriter]
  | readerOf | readerOfFile | readers => exact ⟨rfl, r.view_openReaders⟩
  | writerOf | writerOfFile | writers => exact ⟨rfl, r.view_openWriters⟩
  | route | routeOfFiles =>
    obtain ⟨hfound, hview⟩ := r.pair_eq (fun _ => rfl) (fun _ => rfl)
    exact ⟨congrArg Answer.route hfound, hview⟩
  | routes => exact ⟨rfl, (view_openReaders _).trans r.view_openWriters⟩

/-- From a registry in which a history is listed, requests are answered by what is listed then. -/
theorem run_eq {r : Registry} {history : List Request} (h : r.view = .listed history)
    (requests : List Request) :
    (r.run requests).1 = requests.mapIdx (fun i request =>
        (Catalog.listed (history ++ requests.take i)).answer request) ∧
      (r.run requests).2.view = .listed (history ++ requests) := by
  induction requests generalizing r history with
  | nil => simpa [run] using h
  | cons request requests ih =>
    obtain ⟨hanswer, hview⟩ := r.answer_eq request
    rw [h, ← Catalog.listed_concat] at hview
    obtain ⟨hanswers, hlast⟩ := ih hview
    simp only [run, List.mapIdx_cons, hanswers, hanswer, h, List.take_zero, List.append_nil,
      List.take_succ_cons, hlast, List.append_assoc, List.singleton_append, and_self]

/-- In every history a request is answered by what is listed by then, and what a request has found
it finds again. -/
theorem answers_stable (history : List Request) :
    (fresh.run history).1 =
        history.mapIdx (fun i request => (Catalog.listed (history.take i)).answer request) ∧
      ∀ (i j : Nat) (request : Request) (a : Answer), i ≤ j →
        history[i]? = some request → history[j]? = some request →
        (fresh.run history).1[i]? = some a → a.isFound = true →
        (fresh.run history).1[j]? = some a := by
  obtain ⟨hanswers, -⟩ := run_eq view_fresh history
  simp only [List.nil_append] at hanswers
  refine ⟨hanswers, fun i j request a hij hi hj ha hfound => ?_⟩
  simp only [hanswers, List.getElem?_mapIdx, hi, hj, Option.map_some, Option.some.injEq] at ha ⊢
  subst ha
  obtain ⟨more, rfl⟩ := Nat.exists_eq_add_of_le hij
  rw [List.take_add]
  exact Catalog.answer_listed_append _ _ hfound

end Registry

end Interlingua
