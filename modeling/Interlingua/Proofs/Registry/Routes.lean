import Mathlib.Data.List.Forall2
import Interlingua.Proofs.Registry.Histories

namespace Interlingua

namespace Catalog

def leads (source target : String) (route : Route) : Bool :=
  route.reader.language == source && route.writer.language == target

theorem find?_routes_of_reader {source target : String} (h : source ≠ target) (reader : Reader)
    (writers : List Writer) :
    ((writers.filter (·.language != reader.language)).map (Route.mk reader)).find?
        (leads source target) =
      if reader.language == source then
        (writers.find? (·.language == target)).map (Route.mk reader)
      else none := by
  rw [List.find?_map, List.find?_filter]
  by_cases hs : reader.language = source
  · have hmatch (writer : Writer) :
        (decide (writer.language != reader.language ∧
          (leads source target ∘ Route.mk reader) writer)) = (writer.language == target) := by
      rw [Bool.eq_iff_iff]
      simp only [leads, hs, Function.comp, beq_self_eq_true, Bool.true_and, decide_eq_true_eq,
        bne_iff_ne, beq_iff_eq, and_iff_right_iff_imp]
      rintro rfl
      exact h.symm
    simp only [hmatch]
    simp only [hs, beq_self_eq_true, if_true]
  · simp [leads, hs]

theorem find?_routes (c : Catalog) {source target : String} (h : source ≠ target) :
    c.routes.find? (leads source target) =
      pair (c.readers.find? (·.language == source)) (c.writers.find? (·.language == target)) := by
  obtain ⟨readers, writers⟩ := c
  unfold routes
  induction readers with
  | nil => rfl
  | cons reader readers ih =>
    rw [List.flatMap_cons, List.find?_append, find?_routes_of_reader h, ih, List.find?_cons]
    cases reader.language == source with
    | false => rfl
    | true =>
      cases writers.find? (·.language == target) with
      | none => cases readers.find? (·.language == source) <;> rfl
      | some writer => rfl

/-- The pairs of a reader and a writer of different languages, with their places. -/
def placedRoutes (c : Catalog) : List ((Reader × Nat) × (Writer × Nat)) :=
  c.readers.zipIdx.flatMap fun reader =>
    (c.writers.zipIdx.filter (·.1.language != reader.1.language)).map (reader, ·)

theorem routes_eq (c : Catalog) : c.routes = c.placedRoutes.map fun p => ⟨p.1.1, p.2.1⟩ := by
  have hwriters (p : Writer → Bool) :
      (c.writers.zipIdx.filter (p ·.1)).map (·.1) = c.writers.filter p := by
    have hfst : c.writers.zipIdx.map (·.1) = c.writers := List.zipIdx_map_fst 0 _
    conv_rhs => rw [← hfst, List.filter_map]
    rfl
  have hreaders : c.readers.zipIdx.map (·.1) = c.readers := List.zipIdx_map_fst 0 _
  rw [placedRoutes, List.map_flatMap, routes]
  conv_lhs => rw [← hreaders, List.flatMap_map]
  refine List.flatMap_congr fun reader _ => ?_
  rw [← hwriters, List.map_map, List.map_map]
  rfl

theorem mem_placedRoutes {c : Catalog} {reader : Reader} {writer : Writer} {i j : Nat} :
    ((reader, i), (writer, j)) ∈ c.placedRoutes ↔
      c.readers[i]? = some reader ∧ c.writers[j]? = some writer ∧
        reader.language ≠ writer.language := by
  simp only [placedRoutes, List.mem_flatMap, List.mem_map, List.mem_filter, bne_iff_ne]
  constructor
  · rintro ⟨_, hr, _, ⟨hw, hne⟩, he⟩
    cases he
    exact ⟨List.mk_mem_zipIdx_iff_getElem?.mp hr, List.mk_mem_zipIdx_iff_getElem?.mp hw, hne.symm⟩
  · rintro ⟨hr, hw, hne⟩
    exact ⟨_, List.mk_mem_zipIdx_iff_getElem?.mpr hr, _,
      ⟨List.mk_mem_zipIdx_iff_getElem?.mpr hw, hne.symm⟩, rfl⟩

theorem pairwise_zipIdx {α : Type} (xs : List α) : xs.zipIdx.Pairwise (·.2 < ·.2) := by
  rw [← List.pairwise_map (R := (· < ·)), List.zipIdx_map_snd]
  exact List.pairwise_lt_range'

theorem pairwise_placedRoutes (c : Catalog) :
    (c.placedRoutes.map fun p => (p.1.2, p.2.2)).Pairwise (Prod.Lex (· < ·) (· < ·)) := by
  rw [placedRoutes, List.pairwise_map, List.pairwise_flatMap]
  constructor
  · intro reader _
    rw [List.pairwise_map]
    refine ((pairwise_zipIdx c.writers).filter _).imp ?_
    intro a b hlt
    exact Prod.Lex.right _ hlt
  · refine (pairwise_zipIdx c.readers).imp fun hlt p hp q hq => ?_
    obtain ⟨_, _, rfl⟩ := List.mem_map.mp hp
    obtain ⟨_, _, rfl⟩ := List.mem_map.mp hq
    exact Prod.Lex.left _ _ hlt

end Catalog

/-- Whatever a history has added, the way between two languages is the first of all ways that leads
from the one to the other; and all ways are the pairs of different languages, each once, in the
order of their places in the lists. -/
theorem Registry.route_first (history : List Request) {source target : String}
    (h : source ≠ target) :
    ∃ found readers writers routes,
      ((fresh.run history).2.answer (.route source target)).1 = .route found ∧
      ((fresh.run history).2.answer .readers).1 = .readers readers ∧
      ((fresh.run history).2.answer .writers).1 = .writers writers ∧
      ((fresh.run history).2.answer .routes).1 = .routes routes ∧
      (found.isSome ↔
        ∃ route ∈ routes, route.reader.language = source ∧ route.writer.language = target) ∧
      found = routes.find?
        (fun route => route.reader.language == source && route.writer.language == target) ∧
      ∃ places : List (Nat × Nat), places.Pairwise (Prod.Lex (· < ·) (· < ·)) ∧
        (∀ i j, (i, j) ∈ places ↔ ∃ reader writer, readers[i]? = some reader ∧
          writers[j]? = some writer ∧ reader.language ≠ writer.language) ∧
        List.Forall₂ (fun place route => readers[place.1]? = some route.reader ∧
          writers[place.2]? = some route.writer) places routes := by
  generalize (fresh.run history).2 = r
  have hfound := r.view.find?_routes h
  refine ⟨_, _, _, _, (r.answer_eq _).1, (r.answer_eq _).1, (r.answer_eq _).1, (r.answer_eq _).1,
    ?_, hfound.symm, r.view.placedRoutes.map fun p => (p.1.2, p.2.2),
    r.view.pairwise_placedRoutes, fun i j => ?_, ?_⟩
  · rw [← hfound, List.find?_isSome]
    simp [Catalog.leads]
  · simp only [List.mem_map, Prod.mk.injEq]
    constructor
    · rintro ⟨⟨⟨reader, _⟩, ⟨writer, _⟩⟩, hp, rfl, rfl⟩
      exact ⟨reader, writer, Catalog.mem_placedRoutes.mp hp⟩
    · rintro ⟨reader, writer, hp⟩
      exact ⟨_, Catalog.mem_placedRoutes.mpr hp, rfl, rfl⟩
  · rw [r.view.routes_eq, List.forall₂_map_left_iff, List.forall₂_map_right_iff, List.forall₂_same]
    rintro ⟨⟨reader, i⟩, ⟨writer, j⟩⟩ hp
    obtain ⟨hr, hw, -⟩ := Catalog.mem_placedRoutes.mp hp
    exact ⟨hr, hw⟩

def Registry.dialects : List Request :=
  [.addReader ⟨"cobol", ["cob"], fun _ => .ok ⟨.stmt .breakLoop, []⟩⟩,
    .addReader ⟨"cobol", ["cbl"], fun _ => .ok ⟨.stmt .continueLoop, []⟩⟩]

theorem Registry.route_first_dialects :
    "cobol" ≠ "csharp" ∧ ∃ found routes,
      ((fresh.run dialects).2.answer (.route "cobol" "csharp")).1 = .route found ∧
      ((fresh.run dialects).2.answer .routes).1 = .routes routes ∧
      found = routes.find?
        (fun route => route.reader.language == "cobol" && route.writer.language == "csharp") ∧
      found.map (·.reader.extensions) = some ["cob"] ∧ routes.length = 5 := by
  have hne : "cobol" ≠ "csharp" := by decide
  obtain ⟨found, _, _, routes, hfound, -, -, hroutes, -, hfirst, -⟩ :=
    Registry.route_first dialects hne
  refine ⟨hne, found, routes, hfound, hroutes, hfirst, ?_, ?_⟩
  · rw [← Answer.route.inj hfound]
    rfl
  · rw [← Answer.routes.inj hroutes]
    rfl

end Interlingua
