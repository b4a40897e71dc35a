import GoMongo.Bson.Core

/-!
# `IndexView.CreateMany` and `CreateOne`

The caller's `IndexOptions` values live in a store, and an `IndexModel` holds a reference into
it, so that models of one call and of different calls can share one value. The loop of
`CreateMany` names each model with `getOrGenerateIndexName`, writes the name back through
`model.Options.SetName`, and appends one document per model to the `indexes` array, whose
lengths `AppendDocumentEnd` writes back once each document is complete. What follows the loop is
an oracle `send` from the `indexes` array to its outcome, and the statements hold for every
`send`; `sendIndexes` is the one `CreateMany` runs, from the outcomes of `validSession`, of the
commit quorum's `marshalValue` and of `op.Execute`.

Interface-valued fields (`Keys`, and the document options) are given by what `marshal` makes of
them; `Collation` by its `ToDocument`; a float64 option by its IEEE 754 bits.

`createIndex_ok` and `createIndex_error` say what one turn does on either outcome; `Accepted`
is the relation of accepted runs, and an error of `CreateMany` is the first rejected model's, or
the session check's, the commit quorum's or the command's (`createMany_error`).
-/

namespace GoMongo.Mongo

open GoMongo.Bson

structure IndexOptions where
  expireAfterSeconds : Option (BitVec 32) := none
  name : Option Bytes := none
  sparse : Option Bool := none
  storageEngine : Option (Except Error Document) := none
  unique : Option Bool := none
  version : Option (BitVec 32) := none
  defaultLanguage : Option Bytes := none
  languageOverride : Option Bytes := none
  textVersion : Option (BitVec 32) := none
  weights : Option (Except Error Document) := none
  sphereVersion : Option (BitVec 32) := none
  bits : Option (BitVec 32) := none
  max : Option (BitVec 64) := none
  min : Option (BitVec 64) := none
  bucketSize : Option (BitVec 32) := none
  partialFilterExpression : Option (Except Error Document) := none
  collation : Option Document := none
  wildcardProjection : Option (Except Error Document) := none
  hidden : Option Bool := none
  deriving DecidableEq

def IndexOptions.index : IndexOptions := {}

abbrev Store := Nat → IndexOptions

/-- What `IndexModel.Keys` holds, as the loop sees it: whether `isUnorderedMap` holds of it, and
what `marshal` makes of it. -/
structure Keys where
  isUnorderedMap : Bool
  marshalled : Except Error Document
  deriving DecidableEq

/-- `IndexModel`: nil keys are `none`, and the options are nil or a reference into the store. -/
structure IndexModel where
  keys : Option Keys
  options : Option Nat
  deriving DecidableEq

def errInvalidIndexValue : Error := .errorf ⟨"invalid index value", []⟩

def errMapForOrderedArgumentKeys : Error :=
  .errorf ⟨"multi-key map passed in for ordered parameter %v", ["keys"]⟩

def errMalformedDocument : Error := .errorf ⟨"malformed BSON document", []⟩

def indexValue (elem : Element) : Option Bytes :=
  if elem.type = typeInt32 then some (formatInt (int32Of elem.value))
  else if elem.type = typeInt64 then some (formatInt (int64Of elem.value))
  else if elem.type = typeString then some (stringOf elem.value)
  else none

def indexNameLoop (name : Bytes) (first : Bool) : List Element → Except Error Bytes
  | [] => .ok name
  | elem :: elems =>
    match indexValue elem with
    | none => .error errInvalidIndexValue
    | some value =>
      indexNameLoop ((if first then name else name ++ [0x5f]) ++ elem.key ++ [0x5f] ++ value)
        false elems

def getOrGenerateIndexName (store : Store) (keySpecDocument : Document) (model : IndexModel) :
    Except Error Bytes :=
  match model.options.bind fun r => (store r).name with
  | some name => .ok name
  | none =>
    match readDocument keySpecDocument with
    | none => .error errMalformedDocument
    | some elems => indexNameLoop [] true elems

def optionValue {α : Type} (t : UInt8) (enc : α → Bytes) (v : Option α) :
    Except Error (Option (UInt8 × Bytes)) :=
  .ok (v.map fun a => (t, enc a))

def optionDocument : Option (Except Error Document) → Except Error (Option (UInt8 × Bytes))
  | none => .ok none
  | some m => m.map fun doc => some (typeEmbeddedDocument, doc)

/-- `createOptionsDoc`'s options in its order: the key each is written under, and what it
appends when set. -/
def IndexOptions.fields (o : IndexOptions) : List (String × Except Error (Option (UInt8 × Bytes))) :=
  [("expireAfterSeconds", optionValue typeInt32 encodeInt32 o.expireAfterSeconds),
   ("name", optionValue typeString encodeString o.name),
   ("sparse", optionValue typeBoolean encodeBoolean o.sparse),
   ("storageEngine", optionDocument o.storageEngine),
   ("unique", optionValue typeBoolean encodeBoolean o.unique),
   ("v", optionValue typeInt32 encodeInt32 o.version),
   ("default_language", optionValue typeString encodeString o.defaultLanguage),
   ("language_override", optionValue typeString encodeString o.languageOverride),
   ("textIndexVersion", optionValue typeInt32 encodeInt32 o.textVersion),
   ("weights", optionDocument o.weights),
   ("2dsphereIndexVersion", optionValue typeInt32 encodeInt32 o.sphereVersion),
   ("bits", optionValue typeInt32 encodeInt32 o.bits),
   ("max", optionValue typeDouble encodeDouble o.max),
   ("min", optionValue typeDouble encodeDouble o.min),
   ("bucketSize", optionValue typeInt32 encodeInt32 o.bucketSize),
   ("partialFilterExpression", optionDocument o.partialFilterExpression),
   ("collation", optionValue typeEmbeddedDocument id o.collation),
   ("wildcardProjection", optionDocument o.wildcardProjection),
   ("hidden", optionValue typeBoolean encodeBoolean o.hidden)]

def appendOption (optsDoc : Document) (field : String × Except Error (Option (UInt8 × Bytes))) :
    Except Error Document :=
  field.2.map fun
    | some (t, v) => appendElement optsDoc ⟨t, goBytes field.1, v⟩
    | none => optsDoc

def createOptionsDoc (opts : IndexOptions) : Except Error Document :=
  opts.fields.foldlM appendOption []

def optionsOf (store : Store) (model : IndexModel) : IndexOptions :=
  match model.options with
  | none => IndexOptions.index
  | some r => store r

def setName (store : Store) (options : Option Nat) (name : Bytes) : IndexOptions × Store :=
  match options with
  | none => ({ IndexOptions.index with name := some name }, store)
  | some r =>
    ({ store r with name := some name }, Function.update store r { store r with name := some name })

def checkIndexModel (store : Store) (model : IndexModel) : Except Error (Document × Bytes) :=
  match model.keys with
  | none => .error (.errorf ⟨"index model keys cannot be nil", []⟩)
  | some k =>
    if k.isUnorderedMap then .error errMapForOrderedArgumentKeys else
    match k.marshalled with
    | .error err => .error err
    | .ok keys => (getOrGenerateIndexName store keys model).map ((keys, ·))

def createIndex (store : Store) (i : Nat) (indexes : Bytes) (model : IndexModel) :
    Except Error (Bytes × Bytes) × Store :=
  match checkIndexModel store model with
  | .error err => (.error err, store)
  | .ok (keys, name) =>
    let start := appendDocumentElementStart indexes (itoa i)
    let indexes := appendElement start.2 (documentElement (goBytes "key") keys)
    let opts := setName store model.options name
    match createOptionsDoc opts.1 with
    | .error err => (.error err, opts.2)
    | .ok optsDoc =>
      ((appendDocumentEnd (appendDocument indexes optsDoc) start.1).map (name, ·), opts.2)

def createIndexes (store : Store) (i : Nat) (names : List Bytes) (indexes : Bytes) :
    List IndexModel → Except Error (List Bytes × Bytes) × Store
  | [] => (.ok (names, indexes), store)
  | model :: models =>
    match createIndex store i indexes model with
    | (.error err, store) => (.error err, store)
    | (.ok (name, indexes), store) => createIndexes store (i + 1) (names ++ [name]) indexes models

def indexesArray (store : Store) (models : List IndexModel) :
    Except Error (List Bytes × Document) × Store :=
  let start := appendArrayStart []
  match createIndexes store 0 [] start.2 models with
  | (.error err, store) => (.error err, store)
  | (.ok (names, indexes), store) => ((appendArrayEnd indexes start.1).map (names, ·), store)

def marshalQuorum : Option (Except Error Bytes) → Except Error (Option Bytes)
  | none => .ok none
  | some marshalled => marshalled.map some

/-- What `CreateMany` runs after the loop: `validSession`, the commit quorum, and `op.Execute`
on the array and the quorum, its error as `processWriteError` returns it. -/
def sendIndexes (validSession : Except Error Unit) (commitQuorum : Option (Except Error Bytes))
    (execute : Document → Option Bytes → Except Error Unit) (indexes : Document) :
    Except Error Unit := do
  validSession
  let quorum ← marshalQuorum commitQuorum
  execute indexes quorum

def createMany (store : Store) (models : List IndexModel) (send : Document → Except Error Unit) :
    Except Error (List Bytes) × Store :=
  match indexesArray store models with
  | (.error err, store) => (.error err, store)
  | (.ok (names, indexes), store) => ((send indexes).map fun _ => names, store)

def createOne (store : Store) (model : IndexModel) (send : Document → Except Error Unit) :
    Except Error Bytes × Store :=
  match createMany store [model] send with
  | (.error err, store) => (.error err, store)
  | (.ok names, store) => (.ok (names.headD []), store)

theorem setName_fst (store : Store) (model : IndexModel) (name : Bytes) :
    (setName store model.options name).1 = { optionsOf store model with name := some name } := by
  unfold setName optionsOf; split <;> rfl

theorem setName_snd (store : Store) (options : Option Nat) (name : Bytes) (r : Nat) :
    (setName store options name).2 r =
      if options = some r then { store r with name := some name } else store r := by
  unfold setName
  split
  · rfl
  · next r' =>
    by_cases hr : r = r'
    · subst hr; simp
    · simp [Function.update_noteq hr, Ne.symm hr]

def SameButNames (s t : Store) : Prop := ∀ r name, { s r with name := name } = { t r with name := name }

theorem SameButNames.setName {s t : Store} (h : SameButNames s t) (options : Option Nat)
    (name : Bytes) : SameButNames (setName s options name).2 t := fun r x => by
  rw [setName_snd]; split_ifs <;> exact h r x

theorem appendIndexDocument (indexes : Bytes) (i : Nat) (keys optsDoc : Document) :
    appendDocumentEnd (appendDocument (appendElement (appendDocumentElementStart indexes (itoa i)).2
        (documentElement (goBytes "key") keys)) optsDoc) (appendDocumentElementStart indexes (itoa i)).1 =
      .ok (indexes ++ (documentElement (itoa i)
        (wrapDocument ((documentElement (goBytes "key") keys).bytes ++ optsDoc))).bytes) := by
  have h := appendDocumentEnd_reserved (appendHeader indexes 0x03 (itoa i))
    ((documentElement (goBytes "key") keys).bytes ++ optsDoc)
  simp only [appendDocumentElementStart, appendDocumentStart, appendDocument, appendElement,
    List.append_assoc] at h ⊢
  rw [h]
  simp [appendHeader, documentElement, Element.bytes, typeEmbeddedDocument]

theorem checkIndexModel_ok {store : Store} {model : IndexModel} {keys : Document} {name : Bytes} :
    checkIndexModel store model = .ok (keys, name) ↔
      ∃ k, model.keys = some k ∧ k.isUnorderedMap = false ∧ k.marshalled = .ok keys ∧
        getOrGenerateIndexName store keys model = .ok name := by
  constructor
  · intro h
    unfold checkIndexModel at h
    split at h
    · cases h
    · next k hk =>
      split_ifs at h with hmap
      split at h
      · cases h
      · next keys' hm =>
        obtain ⟨name', hg, heq⟩ := except_map_eq_ok h
        cases heq
        exact ⟨k, hk, by simpa using hmap, hm, hg⟩
  · rintro ⟨k, hk, hmap, hm, hg⟩
    simp [checkIndexModel, hk, hmap, hm, hg, Except.map]

theorem checkIndexModel_error {store : Store} {model : IndexModel} {err : Error}
    (h : checkIndexModel store model = .error err) :
    (model.keys = none ∧ err = .errorf ⟨"index model keys cannot be nil", []⟩) ∨
      ∃ k, model.keys = some k ∧ ((k.isUnorderedMap = true ∧ err = errMapForOrderedArgumentKeys) ∨
        (k.isUnorderedMap = false ∧ (k.marshalled = .error err ∨
          ∃ keys, k.marshalled = .ok keys ∧ getOrGenerateIndexName store keys model = .error err))) := by
  unfold checkIndexModel at h
  split at h
  · next hk => exact .inl ⟨hk, (Except.error.inj h).symm⟩
  · next k hk =>
    refine .inr ⟨k, hk, ?_⟩
    split_ifs at h with hmap
    · exact .inl ⟨hmap, (Except.error.inj h).symm⟩
    · refine .inr ⟨by simpa using hmap, ?_⟩
      split at h
      · next e hm => exact .inl (by rw [hm, Except.error.inj h])
      · next keys hm =>
        refine .inr ⟨keys, hm, ?_⟩
        cases hg : getOrGenerateIndexName store keys model with
        | error e => rw [hg] at h; rw [Except.error.inj h]
        | ok name => simp [hg, Except.map] at h

theorem createIndex_ok {store store' : Store} {i : Nat} {indexes indexes' name : Bytes}
    {model : IndexModel} (h : createIndex store i indexes model = (.ok (name, indexes'), store')) :
    ∃ k keys optsDoc, model.keys = some k ∧ k.isUnorderedMap = false ∧ k.marshalled = .ok keys ∧
      getOrGenerateIndexName store keys model = .ok name ∧
      createOptionsDoc { optionsOf store model with name := some name } = .ok optsDoc ∧
      store' = (setName store model.options name).2 ∧
      indexes' = indexes ++ (documentElement (itoa i)
        (wrapDocument ((documentElement (goBytes "key") keys).bytes ++ optsDoc))).bytes := by
  unfold createIndex at h
  split at h
  · simp at h
  · next keys name' hcheck =>
    dsimp only at h
    split at h
    · simp at h
    · next optsDoc hopts =>
      rw [appendIndexDocument] at h
      simp only [Except.map, Prod.mk.injEq, Except.ok.injEq] at h
      obtain ⟨⟨rfl, rfl⟩, rfl⟩ := h
      obtain ⟨k, hk, hmap, hkeys, hname⟩ := checkIndexModel_ok.1 hcheck
      rw [setName_fst] at hopts
      exact ⟨k, keys, optsDoc, hk, hmap, hkeys, hname, hopts, rfl, rfl⟩

theorem createIndex_of_check {store : Store} {i : Nat} {indexes : Bytes} {model : IndexModel}
    {keys optsDoc : Document} {name : Bytes} (hcheck : checkIndexModel store model = .ok (keys, name))
    (hopts : createOptionsDoc { optionsOf store model with name := some name } = .ok optsDoc) :
    createIndex store i indexes model = (.ok (name, indexes ++ (documentElement (itoa i)
      (wrapDocument ((documentElement (goBytes "key") keys).bytes ++ optsDoc))).bytes),
        (setName store model.options name).2) := by
  rw [← setName_fst] at hopts
  simp only [createIndex, hcheck, hopts, appendIndexDocument]
  rfl

theorem createIndex_error {store : Store} {i : Nat} {indexes : Bytes} {model : IndexModel}
    {err : Error} (h : (createIndex store i indexes model).1 = .error err) :
    checkIndexModel store model = .error err ∨
      ∃ keys name, checkIndexModel store model = .ok (keys, name) ∧
        createOptionsDoc { optionsOf store model with name := some name } = .error err := by
  unfold createIndex at h
  split at h
  · next err' hcheck => exact .inl (by rw [hcheck, Except.error.inj h])
  · next keys name hcheck =>
    dsimp only at h
    split at h
    · next err' hopts =>
      exact .inr ⟨keys, name, hcheck, by rw [← setName_fst, hopts, Except.error.inj h]⟩
    · rw [appendIndexDocument] at h; cases h

theorem createIndex_snd (store : Store) (i : Nat) (indexes : Bytes) (model : IndexModel) :
    (createIndex store i indexes model).2 = store ∨
      ∃ keys name, checkIndexModel store model = .ok (keys, name) ∧
        (createIndex store i indexes model).2 = (setName store model.options name).2 := by
  unfold createIndex
  split
  · exact .inl rfl
  · next keys name hcheck => dsimp only; split <;> exact .inr ⟨keys, name, hcheck, rfl⟩

/-- The turns of an accepted loop from model `i` on: the store and the `indexes` bytes before
them, the models, the names they were given, and the bytes and the store after them. -/
inductive Accepted : Store → Nat → Bytes → List IndexModel → List Bytes → Bytes → Store → Prop
  | nil (store : Store) (i : Nat) (indexes : Bytes) : Accepted store i indexes [] [] indexes store
  | cons {store store' store'' : Store} {i : Nat} {indexes indexes' indexes'' name : Bytes}
      {model : IndexModel} {models : List IndexModel} {names : List Bytes} :
      createIndex store i indexes model = (.ok (name, indexes'), store') →
      Accepted store' (i + 1) indexes' models names indexes'' store'' →
      Accepted store i indexes (model :: models) (name :: names) indexes'' store''

theorem Accepted.length_eq {store store' : Store} {i : Nat} {indexes indexes' : Bytes}
    {models : List IndexModel} {names : List Bytes}
    (h : Accepted store i indexes models names indexes' store') : names.length = models.length := by
  induction h with
  | nil => rfl
  | cons _ _ ih => simp [ih]

theorem Accepted.extends {store store' : Store} {i : Nat} {indexes indexes' : Bytes}
    {models : List IndexModel} {names : List Bytes}
    (h : Accepted store i indexes models names indexes' store') : ∃ rest, indexes' = indexes ++ rest := by
  induction h with
  | nil => exact ⟨[], by simp⟩
  | cons hturn _ ih =>
    obtain ⟨_, _, _, _, _, _, _, _, _, rfl⟩ := createIndex_ok hturn
    obtain ⟨rest, rfl⟩ := ih
    exact ⟨_ ++ rest, List.append_assoc _ _ _⟩

theorem createIndexes_accepted {store store' : Store} {i : Nat} {names names' : List Bytes}
    {indexes indexes' : Bytes} {models : List IndexModel}
    (h : createIndexes store i names indexes models = (.ok (names', indexes'), store')) :
    ∃ given, names' = names ++ given ∧ Accepted store i indexes models given indexes' store' := by
  induction models generalizing store i names indexes with
  | nil =>
    simp only [createIndexes, Prod.mk.injEq, Except.ok.injEq] at h
    obtain ⟨⟨rfl, rfl⟩, rfl⟩ := h
    exact ⟨[], by simp, .nil _ _ _⟩
  | cons model models ih =>
    unfold createIndexes at h
    split at h
    · simp at h
    · next name indexes'' store'' hturn =>
      obtain ⟨given, rfl, hrun⟩ := ih h
      exact ⟨name :: given, by simp, .cons hturn hrun⟩

theorem createIndexes_error {store store' : Store} {i : Nat} {names : List Bytes}
    {indexes : Bytes} {models : List IndexModel} {err : Error}
    (h : createIndexes store i names indexes models = (.error err, store')) :
    ∃ pre model post given indexes' s, models = pre ++ model :: post ∧
      Accepted store i indexes pre given indexes' s ∧
      createIndex s (i + pre.length) indexes' model = (.error err, store') := by
  induction models generalizing store i names indexes with
  | nil => simp [createIndexes] at h
  | cons model models ih =>
    unfold createIndexes at h
    split at h
    · next err' store'' hturn =>
      cases h
      exact ⟨[], model, models, [], indexes, store, rfl, .nil _ _ _, by simpa using hturn⟩
    · next name indexes'' store'' hturn =>
      obtain ⟨pre, model', post, given, indexes', s, rfl, hacc, hfail⟩ := ih h
      refine ⟨model :: pre, model', post, name :: given, indexes', s, rfl, .cons hturn hacc, ?_⟩
      rwa [List.length_cons, Nat.add_comm pre.length 1, ← Nat.add_assoc]

theorem indexesArray_ok {store : Store} {models : List IndexModel} {names : List Bytes}
    {arr : Document} (h : (indexesArray store models).1 = .ok (names, arr)) :
    ∃ indexes, Accepted store 0 [0, 0, 0, 0] models names indexes (indexesArray store models).2 ∧
      appendArrayEnd indexes 0 = .ok arr := by
  unfold indexesArray at h ⊢
  simp only [show appendArrayStart [] = (0, [0, 0, 0, 0]) from rfl] at h ⊢
  split at h
  · simp at h
  · next names' indexes store' hrun =>
    obtain ⟨given, rfl, hacc⟩ := createIndexes_accepted hrun
    obtain ⟨arr', hend, heq⟩ := except_map_eq_ok h
    cases heq
    exact ⟨indexes, hacc, hend⟩

theorem createMany_snd (store : Store) (models : List IndexModel)
    (send : Document → Except Error Unit) :
    (createMany store models send).2 = (indexesArray store models).2 := by
  unfold createMany; split <;> simp_all

theorem createMany_ok {store : Store} {models : List IndexModel} {send : Document → Except Error Unit}
    {names : List Bytes} (h : (createMany store models send).1 = .ok names) :
    ∃ arr, (indexesArray store models).1 = .ok (names, arr) ∧ send arr = .ok () := by
  unfold createMany at h
  split at h
  · simp at h
  · next names' arr store' hok =>
    obtain ⟨u, hsend, rfl⟩ := except_map_eq_ok h
    exact ⟨arr, by rw [hok], hsend⟩

theorem createMany_error_cases {store : Store} {models : List IndexModel}
    {send : Document → Except Error Unit} {err : Error}
    (h : (createMany store models send).1 = .error err) :
    (∃ pre model post names indexes s, models = pre ++ model :: post ∧
        Accepted store 0 [0, 0, 0, 0] pre names indexes s ∧
        (createIndex s pre.length indexes model).1 = .error err) ∨
      ∃ names arr, (indexesArray store models).1 = .ok (names, arr) ∧ send arr = .error err := by
  unfold createMany at h
  split at h
  · next err' store' harr =>
    cases h
    refine .inl ?_
    unfold indexesArray at harr
    simp only [show appendArrayStart [] = (0, [0, 0, 0, 0]) from rfl] at harr
    split at harr
    · next err'' store'' hrun =>
      cases harr
      obtain ⟨pre, model, post, given, indexes, s, rfl, hacc, hfail⟩ := createIndexes_error hrun
      exact ⟨pre, model, post, given, indexes, s, rfl, hacc, by rw [Nat.zero_add] at hfail; rw [hfail]⟩
    · next names indexes store'' hrun =>
      obtain ⟨given, rfl, hacc⟩ := createIndexes_accepted hrun
      obtain ⟨rest, rfl⟩ := hacc.extends
      have hend : appendArrayEnd ([0, 0, 0, 0] ++ rest) 0 = .ok (wrapDocument rest) :=
        (appendDocumentEnd_reserved [] rest).trans (by rw [List.nil_append])
      rw [hend] at harr
      simp [Except.map] at harr
  · next names arr store' harr =>
    cases hsend : send arr with
    | error e => exact .inr ⟨names, arr, harr ▸ rfl, by simp [hsend, Except.map] at h; rwa [← h]⟩
    | ok u => simp [hsend, Except.map] at h

theorem sendIndexes_error {validSession : Except Error Unit}
    {commitQuorum : Option (Except Error Bytes)} {execute : Document → Option Bytes → Except Error Unit}
    {arr : Document} {err : Error} (h : sendIndexes validSession commitQuorum execute arr = .error err) :
    validSession = .error err ∨
      validSession = .ok () ∧ marshalQuorum commitQuorum = .error err ∨
      validSession = .ok () ∧ ∃ quorum, marshalQuorum commitQuorum = .ok quorum ∧
        execute arr quorum = .error err := by
  unfold sendIndexes at h
  cases hv : validSession with
  | error e => rw [hv] at h; exact .inl (congrArg _ (Except.error.inj h))
  | ok u =>
    rw [hv] at h
    cases hq : marshalQuorum commitQuorum with
    | error e => rw [hq] at h; exact .inr (.inl ⟨rfl, congrArg _ (Except.error.inj h)⟩)
    | ok quorum => rw [hq] at h; exact .inr (.inr ⟨rfl, quorum, rfl, h⟩)

/-- Every error of `CreateMany` is the error of the first model the loop rejects, after the
models before it were accepted; or, the array finished, the error of the session check, of the
commit quorum's marshalling or of the command, in that order: closing the array never fails. -/
theorem createMany_error {store : Store} {models : List IndexModel}
    {validSession : Except Error Unit} {commitQuorum : Option (Except Error Bytes)}
    {execute : Document → Option Bytes → Except Error Unit} {err : Error}
    (h : (createMany store models (sendIndexes validSession commitQuorum execute)).1 = .error err) :
    (∃ pre model post names indexes s, models = pre ++ model :: post ∧
        Accepted store 0 [0, 0, 0, 0] pre names indexes s ∧
        (createIndex s pre.length indexes model).1 = .error err) ∨
      ∃ names arr, (indexesArray store models).1 = .ok (names, arr) ∧
        (validSession = .error err ∨
          validSession = .ok () ∧ marshalQuorum commitQuorum = .error err ∨
          validSession = .ok () ∧ ∃ quorum, marshalQuorum commitQuorum = .ok quorum ∧
            execute arr quorum = .error err) :=
  (createMany_error_cases h).imp_right fun ⟨names, arr, harr, hsend⟩ =>
    ⟨names, arr, harr, sendIndexes_error hsend⟩

theorem createMany_error_quorum :
    let keys : Keys :=
      ⟨false, .ok (wrapDocument (Element.bytes ⟨typeInt32, goBytes "a", encodeInt32 1⟩))⟩
    let store : Store := fun _ => {}
    let models : List IndexModel := [⟨some keys, none⟩]
    let err : Error := .errorf ⟨"commit quorum", []⟩
    let execute : Document → Option Bytes → Except Error Unit := fun _ _ => .ok ()
    (createMany store models (sendIndexes (.ok ()) (some (.error err)) execute)).1 = .error err ∧
      ((∃ pre model post names indexes s, models = pre ++ model :: post ∧
          Accepted store 0 [0, 0, 0, 0] pre names indexes s ∧
          (createIndex s pre.length indexes model).1 = .error err) ∨
        ∃ names arr, (indexesArray store models).1 = .ok (names, arr) ∧
          ((.ok () : Except Error Unit) = .error err ∨
            (.ok () : Except Error Unit) = .ok () ∧ marshalQuorum (some (.error err)) = .error err ∨
            (.ok () : Except Error Unit) = .ok () ∧ ∃ quorum,
              marshalQuorum (some (.error err)) = .ok quorum ∧ execute arr quorum = .error err)) := by
  intro keys store models err execute
  have h : (createMany store models (sendIndexes (.ok ()) (some (.error err)) execute)).1 =
      .error err := by decide
  exact ⟨h, createMany_error h⟩

end GoMongo.Mongo
