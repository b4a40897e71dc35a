import GoMongo.Mongo.IndexView

/-!
# The `indexes` array `CreateMany` sends

An accepted loop leaves, after the array's reserved length, one element per model: the model's
position in decimal as its key, and a document of the model's marshalled keys under `key`
followed by the elements `createOptionsDoc` emits for the model's options with the name set.
`AppendDocumentEnd` and `AppendArrayEnd` write the lengths back, so that, where the marshalled
documents are well formed and the array fits an int32 length, the array reads back by the BSON
grammar into exactly these elements.
-/

namespace GoMongo.Mongo

open GoMongo.Bson

def IndexDocument (store : Store) (p : IndexModel × Bytes) (d : Document) : Prop :=
  ∃ keys optsDoc, p.1.keys.map Keys.marshalled = some (.ok keys) ∧
    createOptionsDoc { optionsOf store p.1 with name := some p.2 } = .ok optsDoc ∧
    d = wrapDocument ((documentElement (goBytes "key") keys).bytes ++ optsDoc)

/-- The elements of the array from position `i` on, keyed by their positions in decimal. -/
def arrayElements (i : Nat) (docs : List Document) : List Element :=
  (List.enumFrom i docs).map fun p => documentElement (decimal p.1) p.2

theorem optionsOf_sameButNames {s store : Store} (hs : SameButNames s store) (model : IndexModel)
    (name : Option Bytes) :
    { optionsOf s model with name := name } = { optionsOf store model with name := name } := by
  unfold optionsOf; split
  · rfl
  · exact hs _ name

theorem Accepted.bytes {store s s' : Store} {i : Nat} {indexes indexes' : Bytes}
    {models : List IndexModel} {names : List Bytes}
    (h : Accepted s i indexes models names indexes' s') (hs : SameButNames s store) :
    ∃ docs, List.Forall₂ (IndexDocument store) (models.zip names) docs ∧
      indexes' = indexes ++ (arrayElements i docs).flatMap Element.bytes := by
  induction h with
  | nil => exact ⟨[], .nil, by simp [arrayElements]⟩
  | cons hturn _ ih =>
    obtain ⟨k, keys, optsDoc, hk, -, hkeys, -, hopts, rfl, rfl⟩ := createIndex_ok hturn
    obtain ⟨docs, hdocs, rfl⟩ := ih (hs.setName _ _)
    rw [optionsOf_sameButNames hs] at hopts
    exact ⟨_ :: docs, .cons ⟨keys, optsDoc, by simp [hk, hkeys], hopts, rfl⟩ hdocs,
      by simp [arrayElements, List.enumFrom_cons, itoa_eq_decimal]⟩

end GoMongo.Mongo
