import DocumentBase.Proofs.Store.Amendments
import DocumentBase.Proofs.Store.Identities

/-!
# Rows that are merged

Rows that have an identity are merged into a collection one after the other, each over the document
with its identity or behind all others.  So a document gives way to the last row with its identity
in its place, and the identities that are new follow in the order in which they come up.  To merge
the same rows once more changes nothing.
-/

namespace DocumentBase

/-! ### Documents of one identity -/

/-- The identity of a document is the same as that of another one. -/
def sharesId (d e : Document) : Bool :=
  (d.value? Item.idField).any fun id => hasId id e

theorem sharesId_iff {d e : Document} : sharesId d e = true ↔
    ∃ i j, d.value? Item.idField = some i ∧ e.value? Item.idField = some j ∧ j.same i = true := by
  simp only [sharesId, Option.any_eq_true, hasId_iff]
  exact ⟨fun ⟨i, hi, j, hj, h⟩ => ⟨i, j, hi, hj, h⟩, fun ⟨i, j, hi, hj, h⟩ => ⟨i, hi, j, hj, h⟩⟩

theorem sharesId_of_value? {d : Document} {id : Value} (h : d.value? Item.idField = some id) :
    sharesId d = hasId id := by
  funext e
  rw [sharesId, h, Option.any_some]

theorem sharesId_symm {d e : Document} (h : sharesId d e = true) : sharesId e d = true := by
  obtain ⟨i, j, hi, hj, hsame⟩ := sharesId_iff.mp h
  exact sharesId_iff.mpr ⟨j, i, hj, hi, Value.same_symm hsame⟩

theorem sharesId_eq {d e : Document} (h : sharesId d e = true) : sharesId d = sharesId e := by
  obtain ⟨i, j, hi, hj, hsame⟩ := sharesId_iff.mp h
  rw [sharesId_of_value? hi, sharesId_of_value? hj]
  have hself : j.same j = true := Value.same_trans hsame (Value.same_symm hsame)
  exact hasId_eq_hasId (hasId_iff.mpr ⟨j, hj, hsame⟩) (hasId_iff.mpr ⟨j, hj, hself⟩)

theorem sharesId_comm (d e : Document) : sharesId d e = sharesId e d := by
  rw [Bool.eq_iff_iff]
  exact ⟨sharesId_symm, sharesId_symm⟩

theorem distinctIds_iff {documents : List Document} :
    DistinctIds documents ↔ documents.Pairwise fun d e => sharesId d e = false := by
  refine List.Pairwise.iff fun d e => ?_
  rw [← Bool.not_eq_true, sharesId_iff]
  constructor
  · rintro h ⟨i, j, hi, hj, hsame⟩
    rw [Value.same_comm, h i j hi hj] at hsame
    cases hsame
  · intro h i j hi hj
    rw [Value.same_comm, ← Bool.not_eq_true]
    exact fun hsame => h ⟨i, j, hi, hj, hsame⟩

/-- Documents with distinct identities hold one at most that has the identity of another one. -/
theorem DistinctIds.filter_eq {documents : List Document} (h : DistinctIds documents)
    {d e : Document} (he : e ∈ documents) (hde : sharesId d e = true) :
    documents.filter (sharesId d) = [e] := by
  obtain ⟨before, after, rfl⟩ := List.append_of_mem he
  rw [distinctIds_iff, List.pairwise_append, List.pairwise_cons] at h
  have hbefore : before.filter (sharesId d) = [] := by
    rw [List.filter_eq_nil_iff]
    intro x hx
    rw [sharesId_eq hde, sharesId_comm, h.2.2 x hx e List.mem_cons_self]
    exact Bool.false_ne_true
  have hafter : after.filter (sharesId d) = [] := by
    rw [List.filter_eq_nil_iff]
    intro x hx
    rw [sharesId_eq hde, h.2.1.1 x hx]
    exact Bool.false_ne_true
  rw [List.filter_append, hbefore, List.filter_cons_of_pos hde, hafter, List.nil_append]

/-! ### What rows come to -/

/-- The last row with the identity of a document, or the document if there is none. -/
def latest (rows : List Document) (d : Document) : Document :=
  (rows.filter (sharesId d)).getLast?.getD d

/-- The rows under identities that neither documents nor earlier rows have. -/
def firsts (documents : List Document) : List Document → List Document
  | [] => []
  | row :: rest =>
    if documents.any (sharesId row) then firsts documents rest
    else row :: firsts (documents ++ [row]) rest

variable {documents rows : List Document} {row d : Document}

theorem latest_concat (rows : List Document) (row d : Document) :
    latest (rows ++ [row]) d = if sharesId d row then row else latest rows d := by
  rw [latest, List.filter_append]
  by_cases hshares : sharesId d row = true
  · rw [List.filter_cons_of_pos hshares, List.getLast?_append, if_pos hshares]
    rfl
  · rw [List.filter_cons_of_neg hshares, List.filter_nil, List.append_nil, if_neg hshares, latest]

theorem latest_of_not_shares (h : ∀ row ∈ rows, sharesId d row = false) : latest rows d = d := by
  have hnone : rows.filter (sharesId d) = [] :=
    List.filter_eq_nil_iff.mpr fun row hrow => by simp [h row hrow]
  rw [latest, hnone]
  rfl

/-- The last row with an identity is one of the rows and has the identity. -/
theorem latest_spec (hrow : row ∈ rows) (h : sharesId d row = true) :
    (rows.filter (sharesId d)).getLast? = some (latest rows d) ∧
      sharesId d (latest rows d) = true := by
  have hmem : row ∈ rows.filter (sharesId d) := List.mem_filter.mpr ⟨hrow, h⟩
  cases hlast : (rows.filter (sharesId d)).getLast? with
  | none =>
      rw [List.getLast?_eq_none_iff.mp hlast] at hmem
      cases hmem
  | some last =>
      have hlatest : latest rows d = last := by
        rw [latest, hlast]
        rfl
      rw [hlatest]
      exact ⟨rfl, (List.mem_filter.mp (List.mem_of_getLast? hlast)).2⟩

theorem sharesId_latest (rows : List Document) (d : Document) :
    sharesId (latest rows d) = sharesId d := by
  by_cases h : ∃ row ∈ rows, sharesId d row = true
  · obtain ⟨row, hrow, hshares⟩ := h
    exact (sharesId_eq (latest_spec hrow hshares).2).symm
  · rw [latest_of_not_shares fun row hrow => Bool.eq_false_iff.mpr fun hshares =>
      h ⟨row, hrow, hshares⟩]

/-- Documents with one identity come to the same row. -/
theorem latest_eq_latest (hrow : row ∈ rows) (hself : sharesId row row = true)
    (h : sharesId row d = true) : latest rows d = latest rows row := by
  have hspec := latest_spec hrow hself
  have hspec' := latest_spec hrow (sharesId_symm h)
  rw [← sharesId_eq h, hspec.1] at hspec'
  exact (Option.some.inj hspec'.1).symm

/-- What rows make of a document they do not change again. -/
theorem latest_latest (rows : List Document) (d : Document) :
    latest rows (latest rows d) = latest rows d := by
  rw [latest, sharesId_latest]
  cases hlast : (rows.filter (sharesId d)).getLast? with
  | none => rfl
  | some last =>
      rw [latest, hlast]
      rfl

/-- A row is new unless a document or an earlier row has its identity. -/
theorem firsts_concat (documents rows : List Document) (row : Document) :
    firsts documents (rows ++ [row]) = firsts documents rows ++
      if (documents ++ firsts documents rows).any (sharesId row) then [] else [row] := by
  induction rows generalizing documents with
  | nil => simp [firsts]
  | cons first rest ih =>
      rw [List.cons_append, firsts, firsts]
      split
      · exact ih documents
      · rw [ih, List.cons_append, List.append_assoc, List.singleton_append]

/-- Every identity of a row is one of a document or comes up among the rows. -/
theorem any_append_firsts (hrow : row ∈ rows) (hself : sharesId row row = true) :
    (documents ++ firsts documents rows).any (sharesId row) = true := by
  induction rows using List.reverseRecOn with
  | nil => cases hrow
  | append_singleton rows last ih =>
      rw [firsts_concat, ← List.append_assoc, List.any_append, Bool.or_eq_true]
      rcases List.mem_append.mp hrow with hearlier | hlast
      · exact .inl (ih hearlier)
      · cases List.mem_singleton.mp hlast
        by_cases hthere : (documents ++ firsts documents rows).any (sharesId row) = true
        · exact .inl hthere
        · rw [if_neg hthere, List.any_cons, hself]
          exact .inr rfl

theorem firsts_eq_nil (h : ∀ row ∈ rows, documents.any (sharesId row) = true) :
    firsts documents rows = [] := by
  induction rows with
  | nil => rfl
  | cons row rest ih =>
      rw [List.forall_mem_cons] at h
      rw [firsts, if_pos h.1, ih h.2]

/-! ### Merging -/

/-- Only the document at a position has its identity. -/
theorem DistinctIds.not_shares {i k : Nat} (h : DistinctIds documents) (hi : i < documents.length)
    (hk : k < documents.length) (hne : i ≠ k) : sharesId documents[i] documents[k] = false := by
  rw [distinctIds_iff, List.pairwise_iff_getElem] at h
  rcases Nat.lt_or_gt_of_ne hne with hlt | hgt
  · exact h i k hi hk hlt
  · rw [sharesId_comm]
    exact h k i hk hi hgt

/-- A row takes the place of the document with its identity, or it is stored at the end. -/
theorem upsertRow_eq (hdistinct : DistinctIds documents) (hself : sharesId row row = true) :
    upsertRow documents row =
      documents.map (fun d => if sharesId d row then row else d) ++
        if documents.any (sharesId row) then [] else [row] := by
  obtain ⟨id, -, hid, -, -⟩ := sharesId_iff.mp hself
  rw [upsertRow, hid, Option.bind_some]
  cases hposition : positionOf? documents id with
  | none =>
      have hnone : ∀ d ∈ documents, sharesId row d = false := by
        rw [sharesId_of_value? hid]
        exact positionOf?_eq_none.mp hposition
      have hany : ¬ documents.any (sharesId row) = true := by
        simpa using hnone
      have hsame : documents.map (fun d => if sharesId d row then row else d) =
          documents.map fun d => d := by
        refine List.map_congr_left fun d hd => if_neg ?_
        rw [sharesId_comm, hnone d hd]
        exact Bool.false_ne_true
      rw [hsame, List.map_id', if_neg hany]
  | some position =>
      have hlt := lt_length_of_positionOf? hposition
      have hold : sharesId row documents[position] = true := by
        rw [sharesId_of_value? hid]
        exact hasId_getElem_of_positionOf? hposition hlt
      have hany : documents.any (sharesId row) = true :=
        List.any_eq_true.mpr ⟨_, List.getElem_mem hlt, hold⟩
      rw [if_pos hany, List.append_nil]
      refine List.ext_getElem (by simp) fun k hk _ => ?_
      rw [List.length_set] at hk
      rw [List.getElem_map, List.getElem_set]
      by_cases hk' : position = k
      · subst hk'
        rw [if_pos rfl, if_pos (sharesId_symm hold)]
      · have hother : sharesId documents[k] row = false := by
          rw [sharesId_comm, sharesId_eq hold]
          exact hdistinct.not_shares hlt hk hk'
        rw [if_neg hk', hother, if_neg Bool.false_ne_true]

/-- What a collection comes to when rows are merged into it. -/
theorem foldl_upsertRow_eq (hdistinct : DistinctIds documents)
    (hrows : ∀ row ∈ rows, sharesId row row = true) :
    rows.foldl upsertRow documents = (documents ++ firsts documents rows).map (latest rows) := by
  induction rows using List.reverseRecOn with
  | nil =>
      rw [List.foldl_nil, firsts, List.append_nil]
      exact (List.map_id'' (fun d => latest_of_not_shares (by simp)) documents).symm
  | append_singleton rows row ih =>
      rw [List.forall_mem_append, List.forall_mem_singleton] at hrows
      have hbefore := ih hrows.1
      have hmerged := hdistinct.foldl_upsertRow rows
      rw [hbefore] at hmerged
      rw [List.foldl_concat, hbefore, upsertRow_eq hmerged hrows.2, firsts_concat,
        ← List.append_assoc]
      generalize documents ++ firsts documents rows = places
      have hany : (places.map (latest rows)).any (sharesId row) = places.any (sharesId row) := by
        rw [List.any_map, Bool.eq_iff_iff, List.any_eq_true, List.any_eq_true]
        refine exists_congr fun d => and_congr_right fun _ => ?_
        rw [Function.comp_apply, sharesId_comm, sharesId_latest, sharesId_comm]
      have hstep : (places.map (latest rows)).map (fun d => if sharesId d row then row else d) =
          places.map (latest (rows ++ [row])) := by
        rw [List.map_map]
        refine List.map_congr_left fun d _ => ?_
        rw [Function.comp_apply, sharesId_latest, latest_concat]
      have hnew : [row].map (latest (rows ++ [row])) = [row] := by
        rw [List.map_singleton, latest_concat, if_pos hrows.2]
      rw [hany, hstep, List.map_append]
      split
      · rfl
      · rw [hnew]

/-- What a collection is once rows are merged into it. -/
structure Merged (documents rows merged : List Document) : Prop where
  /-- Documents keep their places, and new ones follow in the order in which their identities come
  up.  The last row with an identity counts. -/
  places : merged = (documents ++ firsts documents rows).map (latest rows)
  /-- The identity of a row is that of one document, the last row with it. -/
  held : ∀ row ∈ rows, ∃ last, (rows.filter (sharesId row)).getLast? = some last ∧
    merged.filter (sharesId row) = [last]
  /-- A document whose identity no row has is as before. -/
  unchanged : ∀ (i : Nat) (d : Document), documents[i]? = some d →
    (∀ row ∈ rows, sharesId d row = false) → merged[i]? = some d
  distinct : DistinctIds merged

/-- Merging rows one by one gives what merging is specified to give. -/
theorem merged_foldl_upsertRow (hdistinct : DistinctIds documents)
    (hrows : ∀ row ∈ rows, sharesId row row = true) :
    Merged documents rows (rows.foldl upsertRow documents) where
  places := foldl_upsertRow_eq hdistinct hrows
  held := by
    intro row hrow
    have hself := hrows row hrow
    refine ⟨latest rows row, (latest_spec hrow hself).1, ?_⟩
    refine (hdistinct.foldl_upsertRow rows).filter_eq ?_ (latest_spec hrow hself).2
    obtain ⟨d, hd, hshares⟩ := List.any_eq_true.mp (any_append_firsts hrow hself)
    rw [foldl_upsertRow_eq hdistinct hrows, ← latest_eq_latest hrow hself hshares]
    exact List.mem_map_of_mem hd
  unchanged := by
    intro i d hd hfree
    rw [foldl_upsertRow_eq hdistinct hrows, List.map_append, List.getElem?_append_left,
      List.getElem?_map, hd, Option.map_some, latest_of_not_shares hfree]
    rw [List.length_map]
    exact (List.getElem?_eq_some_iff.mp hd).1
  distinct := hdistinct.foldl_upsertRow rows

/-- The same rows once more change nothing. -/
theorem foldl_upsertRow_merged (hdistinct : DistinctIds documents)
    (hrows : ∀ row ∈ rows, sharesId row row = true) :
    rows.foldl upsertRow (rows.foldl upsertRow documents) = rows.foldl upsertRow documents := by
  have hmerged := merged_foldl_upsertRow hdistinct hrows
  have hold : firsts (rows.foldl upsertRow documents) rows = [] := by
    refine firsts_eq_nil fun row hrow => ?_
    obtain ⟨last, -, hfilter⟩ := hmerged.held row hrow
    have hlast : last ∈ (rows.foldl upsertRow documents).filter (sharesId row) :=
      hfilter ▸ List.mem_singleton_self last
    obtain ⟨hmem, hshares⟩ := List.mem_filter.mp hlast
    exact List.any_eq_true.mpr ⟨last, hmem, hshares⟩
  rw [foldl_upsertRow_eq hmerged.distinct hrows, hold, List.append_nil, hmerged.places,
    List.map_map]
  exact List.map_congr_left fun d _ => latest_latest rows d

theorem Collections.store_of_rows? {c : Collections} {name : String} {stored : List Document}
    (h : c.rows? name = some stored) : c.store name stored = c := by
  induction c with
  | nil => cases h
  | cons entry rest ih =>
      obtain ⟨other, old⟩ := entry
      rw [rows?] at h
      rw [store]
      by_cases hname : other = name
      · rw [if_pos hname, Option.some.injEq] at h
        rw [if_pos hname, h]
      · rw [if_neg hname] at h
        rw [if_neg hname, ih h]

/-- Rows that each have an identity, one that is the same as itself, are merged into a collection
in which identities are different.  Nothing else is changed, and to merge them again changes nothing
at all. -/
theorem Sink.merges_idempotently {c : Collections} {target : String} {rows : List Document}
    (hdistinct : DistinctIds (c.rows target))
    (hrows : ∀ row ∈ rows, ∃ id, row.value? Item.idField = some id ∧ id.same id = true) :
    Merged (c.rows target) rows (((merge target).apply c rows).rows target) ∧
      (∀ other, other ≠ target → ((merge target).apply c rows).rows? other = c.rows? other) ∧
      (merge target).apply ((merge target).apply c rows) rows = (merge target).apply c rows := by
  have hself : ∀ row ∈ rows, sharesId row row = true := by
    intro row hrow
    obtain ⟨id, hid, hsame⟩ := hrows row hrow
    exact sharesId_iff.mpr ⟨id, id, hid, hid, hsame⟩
  refine ⟨?_, fun other hother => c.rows?_store_ne _ hother.symm, ?_⟩
  · rw [apply, Collections.rows_store_self]
    exact merged_foldl_upsertRow hdistinct hself
  · rw [apply, apply, Collections.rows_store_self, foldl_upsertRow_merged hdistinct hself]
    exact Collections.store_of_rows? (c.rows?_store_self target _)

/-! ### Notes that are merged -/

namespace MergingExample

def note (id : Value) (text : String) : Document :=
  [("_id", id), ("text", .string text)]

/-- Notes with numbers for identities, of which one is a list, and one note without any. -/
def stored : List Document :=
  [note (.int32 1) "a", note (.array [.int32 2]) "b", [("text", .string "c")],
    note (.double Double.nan) "d"]

/-- Two rows for the second note, and three for two that are new. -/
def incoming : List Document :=
  [note (.int64 7) "e", note (.array [.int64 2]) "f", note (.string "x") "g",
    note (.int32 7) "h", note (.array [.int32 2]) "i"]

def notes : Collections :=
  [("notes", stored), ("others", [note (.int32 7) "k"])]

end MergingExample

open MergingExample in
theorem Sink.merges_idempotently_of_notes :
    ((Sink.merge "notes").apply notes incoming).rows "notes" =
        [note (.int32 1) "a", note (.array [.int32 2]) "i", [("text", .string "c")],
          note (.double Double.nan) "d", note (.int32 7) "h", note (.string "x") "g"] ∧
      Merged (notes.rows "notes") incoming
        (((Sink.merge "notes").apply notes incoming).rows "notes") ∧
      (Sink.merge "notes").apply ((Sink.merge "notes").apply notes incoming) incoming =
        (Sink.merge "notes").apply notes incoming := by
  have hdistinct : DistinctIds (notes.rows "notes") := by
    rw [distinctIds_iff]
    decide +kernel
  have hrows : ∀ row ∈ incoming, ∃ id, row.value? Item.idField = some id ∧ id.same id = true := by
    simp only [incoming, List.forall_mem_cons]
    exact ⟨⟨_, rfl, by decide⟩, ⟨_, rfl, by decide⟩, ⟨_, rfl, by decide⟩, ⟨_, rfl, by decide⟩,
      ⟨_, rfl, by decide⟩, nofun⟩
  obtain ⟨hmerged, -, hagain⟩ := merges_idempotently hdistinct hrows
  exact ⟨rfl, hmerged, hagain⟩

end DocumentBase
