import SeastarStarter.Commands

/-!
# What the reading functions make of their arguments

`readDocument` decodes six keys of its options document, each with a typed getter of its own:
`findOptionsAt_eq_some` says what it takes and what comes of it, and `decodes_iff` for which
documents that is what they mean. `readDB`, `readCollection` and `readIndex` each hold the same
two loops over a listing (MongoInterface.h:63-87, 109-143, 295-314): one appends every entry, the
other the first of a name. `appendFirst_of_appendAll` relates the two loops once.
-/

namespace SeastarStarter

open MongoDBInterface

/-! ## The find options -/

/-- The integers of a JSON body: `from_json` makes an int32 of what fits, an int64 of the rest. -/
def Value.integer? : Value → Option Int64
  | .int32 n => some n.toInt64
  | .int64 n => some n
  | _ => none

/-- The options a document means: the value of each key that is there. -/
def meantOptions (options : Document) : FindOptions where
  allowDiskUse := (elem options "allow_disk_use").bind Value.bool?
  batchSize := (elem options "batch_size").bind Value.int32?
  limit := (elem options "limit").bind Value.integer?
  skip := (elem options "skip").bind Value.integer?
  sort := (elem options "sort").bind Value.document?
  projection := (elem options "projection").bind Value.document?

section
variable {α : Type} {read : Value → Option α} {doc : Document} {key : String}

/-- A field that is there can be read. -/
def ReadableWhenSet (read : Value → Option α) (doc : Document) (key : String) : Prop :=
  ∀ v, elem doc key = some v → ∃ a, read v = some a

theorem optionalAt_eq_some {x : Option α} :
    optionalAt read doc key = some x ↔
      ReadableWhenSet read doc key ∧ x = (elem doc key).bind read := by
  unfold optionalAt ReadableWhenSet
  cases elem doc key with
  | none => simp [eq_comm]
  | some v =>
    cases hv : read v with
    | none => simp [hv]
    | some a => simp [hv, eq_comm]

end

/-- Each key that is there has a value that its option can represent. -/
structure Representable (options : Document) : Prop where
  allowDiskUse : ReadableWhenSet Value.bool? options "allow_disk_use"
  batchSize : ReadableWhenSet Value.int32? options "batch_size"
  limit : ReadableWhenSet Value.integer? options "limit"
  skip : ReadableWhenSet Value.integer? options "skip"
  sort : ReadableWhenSet Value.document? options "sort"
  projection : ReadableWhenSet Value.document? options "projection"

/-- `allow_disk_use` is not set, and neither `limit` nor `skip` needs 64 bits. -/
structure FitsGetters (options : Document) : Prop where
  allowDiskUse : elem options "allow_disk_use" = none
  limit : ReadableWhenSet Value.int32? options "limit"
  skip : ReadableWhenSet Value.int32? options "skip"

/-- Where the client is usable, `readDocument` issues one find, with the options that are meant. -/
def Decodes (options : Document) : Prop :=
  ∀ (S : Type) (drv : Driver S) (w : World S) (dbName collectionName : Bytes) (filter : Document),
    drv.database w.db dbName = .ok () →
      ∃ returned, ((readDocument drv dbName collectionName filter options).run w).2.issued =
        w.issued ++ [(.find dbName collectionName filter (meantOptions options), returned)]

/-- What `readDocument` accepts, and what it makes of it. -/
theorem findOptionsAt_eq_some {options : Document} {opts : FindOptions} :
    findOptionsAt options = some opts ↔
      (ReadableWhenSet Value.int32? options "allow_disk_use" ∧
        ReadableWhenSet Value.int32? options "batch_size" ∧
        ReadableWhenSet Value.int32? options "limit" ∧
        ReadableWhenSet Value.int32? options "skip" ∧
        ReadableWhenSet Value.document? options "sort" ∧
        ReadableWhenSet Value.document? options "projection") ∧
      opts =
        ⟨((elem options "allow_disk_use").bind Value.int32?).map (· == 1),
          (elem options "batch_size").bind Value.int32?,
          ((elem options "limit").bind Value.int32?).map Int32.toInt64,
          ((elem options "skip").bind Value.int32?).map Int32.toInt64,
          (elem options "sort").bind Value.document?,
          (elem options "projection").bind Value.document?⟩ := by
  simp only [findOptionsAt, Option.bind_eq_bind, Option.bind_eq_some_iff, optionalAt_eq_some]
  constructor
  · rintro ⟨_, ⟨hallow, rfl⟩, _, ⟨hbatch, rfl⟩, _, ⟨hlimit, rfl⟩, _, ⟨hskip, rfl⟩, _,
      ⟨hsort, rfl⟩, _, ⟨hprojection, rfl⟩, hopts⟩
    exact ⟨⟨hallow, hbatch, hlimit, hskip, hsort, hprojection⟩, (Option.some.inj hopts).symm⟩
  · rintro ⟨⟨hallow, hbatch, hlimit, hskip, hsort, hprojection⟩, rfl⟩
    exact ⟨_, ⟨hallow, rfl⟩, _, ⟨hbatch, rfl⟩, _, ⟨hlimit, rfl⟩, _, ⟨hskip, rfl⟩, _,
      ⟨hsort, rfl⟩, _, ⟨hprojection, rfl⟩, rfl⟩

theorem run_readDocument_ok {S : Type} {drv : Driver S} {w : World S}
    {dbName collectionName : Bytes} {filter options : Document} {opts : FindOptions}
    (hdb : drv.database w.db dbName = .ok ()) (hopts : findOptions options = .ok opts) :
    ((readDocument drv dbName collectionName filter options).run w).2 =
      ((issue drv (.find dbName collectionName filter opts)).run w).2 := by
  have hdatabase : (database drv dbName).run w = (.ok (), w) := by
    rw [← hdb]
    rfl
  unfold readDocument
  rw [Fut.run_bind_ok hdatabase, hopts, Fut.ofExcept_ok, pure_bind, Fut.run_bind]
  rcases (issue drv (.find dbName collectionName filter opts)).run w with ⟨e | docs, w'⟩ <;> rfl

theorem run_readDocument_error {S : Type} {drv : Driver S} {w : World S}
    {dbName collectionName : Bytes} {filter options : Document} {e : Exn}
    (hopts : findOptions options = .error e) :
    ((readDocument drv dbName collectionName filter options).run w).2 = w := by
  have hdatabase : (database drv dbName).run w = (drv.database w.db dbName, w) := rfl
  unfold readDocument
  rw [Fut.run_bind, hdatabase, hopts]
  cases drv.database w.db dbName <;> rfl

/-- `readDocument` does what is meant where it reads the options as they are meant. -/
theorem decodes_iff_findOptions {options : Document} :
    Decodes options ↔ findOptionsAt options = some (meantOptions options) := by
  rw [← toOption_findOptions, Except.toOption_eq_some]
  constructor
  · intro h
    obtain ⟨returned, hissued⟩ := h Unit willing ⟨(), []⟩ [] [] [] rfl
    cases hopts : findOptions options with
    | error e =>
      rw [run_readDocument_error hopts] at hissued
      cases hissued
    | ok opts =>
      rw [run_readDocument_ok rfl hopts] at hissued
      have heq := (Prod.mk.inj (List.cons.inj hissued).1).1
      rw [(Command.find.inj heq).2.2.2]
  · intro h S drv w dbName collectionName filter hdb
    refine ⟨(drv.run (.find dbName collectionName filter (meantOptions options)) w.db).1.isOk, ?_⟩
    rw [run_readDocument_ok hdb h]
    rfl

theorem not_readable_bool_int32 {v : Value} {b : Bool} {n : Int32} (hb : v.bool? = some b)
    (hn : v.int32? = some n) : False := by
  cases v with
  | bool b => cases hn
  | _ => cases hb

theorem integer?_of_int32? {options : Document} {key : String}
    (h : ReadableWhenSet Value.int32? options key) :
    ((elem options key).bind Value.int32?).map Int32.toInt64 =
      (elem options key).bind Value.integer? := by
  cases hv : elem options key with
  | none => rfl
  | some v =>
    obtain ⟨n, hn⟩ := h v hv
    cases v <;> first | rfl | cases hn

/-- **When the find options arrive as they were meant.** Of the documents whose values their
options can represent, exactly those without `allow_disk_use` and with 32-bit `limit` and `skip`
are decoded: the flag is read as an integer, and the two counters as int32. -/
theorem decodes_iff (options : Document) (h : Representable options) :
    Decodes options ↔ FitsGetters options := by
  rw [decodes_iff_findOptions, findOptionsAt_eq_some]
  constructor
  · rintro ⟨⟨hallow, -, hlimit, hskip, -, -⟩, -⟩
    refine ⟨?_, hlimit, hskip⟩
    cases hv : elem options "allow_disk_use" with
    | none => rfl
    | some v =>
      obtain ⟨b, hb⟩ := h.allowDiskUse v hv
      obtain ⟨n, hn⟩ := hallow v hv
      exact (not_readable_bool_int32 hb hn).elim
  · rintro ⟨hallow, hlimit, hskip⟩
    refine ⟨⟨?_, h.batchSize, hlimit, hskip, h.sort, h.projection⟩, ?_⟩
    · intro v hv
      rw [hallow] at hv
      cases hv
    · unfold meantOptions
      rw [hallow, integer?_of_int32? hlimit, integer?_of_int32? hskip]
      rfl

/-- A limit that fits, and a key that nobody reads. -/
theorem decodes_small_limit :
    Decodes [(text "hint", .null), (text "limit", .int32 5)] ↔
      FitsGetters [(text "hint", .null), (text "limit", .int32 5)] := by
  refine decodes_iff _ ⟨?_, ?_, ?_, ?_, ?_, ?_⟩
  · nofun
  · nofun
  · intro v hv
    cases hv
    exact ⟨5, rfl⟩
  · nofun
  · nofun
  · nofun

/-- A limit of 2^31: `get_int32` throws, and no find is issued. -/
theorem not_always_decodes : ¬ ∀ options, Representable options → Decodes options := by
  intro h
  have hdecodes := h [(text "limit", .int64 2147483648)] (by
    refine ⟨nofun, nofun, ?_, nofun, nofun, nofun⟩
    intro v hv
    cases hv
    exact ⟨2147483648, rfl⟩)
  rw [decodes_iff_findOptions, findOptionsAt_eq_some] at hdecodes
  obtain ⟨n, hn⟩ := hdecodes.1.2.2.1 (.int64 2147483648) rfl
  cases hn

/-! ## Looking a name up in a listing -/

/-- The entry has this name. -/
def named (name : Bytes) (entry : Document) : Bool := stringAt entry "name" = some name

section
variable {name : Bytes} {project : Document → Except Exn Document} {listed all : List Document}

theorem getString_eq_ok {doc : Document} {key : String} {s : Bytes} :
    getString (elem doc key) = .ok s ↔ stringAt doc key = some s := by
  rw [← toOption_getString, Except.toOption_eq_some]

/-- The search finds the first entry of the name in what the other loop appends, if the fields
that are copied include the name. -/
theorem appendFirst_of_appendAll
    (hproject : ∀ x d, project x = .ok d → stringAt d "name" = stringAt x "name")
    (hnames : ∀ x ∈ listed, ∃ s, stringAt x "name" = some s)
    (hall : appendAll project listed = .ok all) :
    appendFirst name project listed = .ok (all.find? (named name)).toList := by
  unfold appendAll at hall
  induction listed generalizing all with
  | nil =>
    cases hall
    rfl
  | cons x listed ih =>
    rw [List.mapM_cons] at hall
    obtain ⟨d, hd, hall⟩ := Except.bind_eq_ok.1 hall
    obtain ⟨rest, hrest, hall⟩ := Except.bind_eq_ok.1 hall
    cases hall
    obtain ⟨s, hs⟩ := hnames x (by simp)
    have hname : stringAt d "name" = some s := (hproject x d hd).trans hs
    rw [appendFirst, getString_eq_ok.2 hs]
    by_cases hfirst : name = s
    · subst hfirst
      simp [bind, Except.bind, hd, pure, Except.pure, named, hname]
    · have hsearch := ih (fun y hy => hnames y (by simp [hy])) hrest
      have hne : ¬ s = name := fun h => hfirst h.symm
      simp only [bind, Except.bind, if_neg hfirst, hsearch]
      simp [named, hname, hne]

theorem appendAll_ok (h : ∀ x ∈ listed, ∃ d, project x = .ok d) :
    ∃ all, appendAll project listed = .ok all := by
  unfold appendAll
  induction listed with
  | nil => exact ⟨[], rfl⟩
  | cons x listed ih =>
    obtain ⟨d, hd⟩ := h x (by simp)
    obtain ⟨rest, hrest⟩ := ih fun y hy => h y (by simp [hy])
    exact ⟨d :: rest, by rw [List.mapM_cons, hd, hrest]; rfl⟩

theorem appendAll_mem (hall : appendAll project listed = .ok all) :
    ∀ x ∈ listed, ∃ d, project x = .ok d := by
  unfold appendAll at hall
  induction listed generalizing all with
  | nil => simp
  | cons x listed ih =>
    rw [List.mapM_cons] at hall
    obtain ⟨d, hd, hall⟩ := Except.bind_eq_ok.1 hall
    obtain ⟨rest, hrest, -⟩ := Except.bind_eq_ok.1 hall
    intro y hy
    rcases List.mem_cons.1 hy with rfl | hy
    · exact ⟨d, hd⟩
    · exact ih hrest y hy

theorem appendAll_eq_self (hproject : ∀ x d, project x = .ok d → d = x)
    (hall : appendAll project listed = .ok all) : all = listed := by
  unfold appendAll at hall
  induction listed generalizing all with
  | nil =>
    cases hall
    rfl
  | cons x listed ih =>
    rw [List.mapM_cons] at hall
    obtain ⟨d, hd, hall⟩ := Except.bind_eq_ok.1 hall
    obtain ⟨rest, hrest, hall⟩ := Except.bind_eq_ok.1 hall
    cases hall
    rw [hproject x d hd, ih hrest]

end

/-- What is listed. -/
inductive Listing where
  | databases | collections | indexes
deriving DecidableEq

namespace Listing

variable (lib : Bsoncxx)

/-- The array when everything is asked for. -/
def everything (name : Bytes) (listed : List Document) : Listing → Except Exn (List Document)
  | .databases => databasesArray name true listed
  | .collections => collectionsArray name true listed
  | .indexes => indexesArray lib (text "") listed

/-- The array when a name is asked for. -/
def byName (name : Bytes) (listed : List Document) : Listing → Except Exn (List Document)
  | .databases => databasesArray name false listed
  | .collections => collectionsArray name false listed
  | .indexes => indexesArray lib name listed

end Listing

/-- An entry of a listing: it has a name and, for collections, a type. -/
structure Entry (listing : Listing) (entry : Document) : Prop where
  name : ∃ s, stringAt entry "name" = some s
  type : listing = .collections → ∃ v, elem entry "type" = some v

/-- The lookup is the first entry of the name in the full array, or else an error. -/
def LookupAgrees (lib : Bsoncxx) (listing : Listing) (name : Bytes) (listed : List Document) :
    Prop :=
  ∃ all message, listing.everything lib name listed = .ok all ∧
    listing.byName lib name listed = .ok
      (match all.find? (named name) with
      | some d => [d]
      | none => [errorDoc message])

theorem nameAndType_ok {entry : Document} (h : Entry .collections entry) :
    ∃ d, nameAndType entry = .ok d := by
  obtain ⟨s, hs⟩ := h.name
  obtain ⟨v, hv⟩ := h.type rfl
  refine ⟨[(text "name", .string s), (text "type", v)], ?_⟩
  unfold nameAndType
  rw [stringAt_eq_some.1 hs, hv]
  rfl

theorem nameAndType_name {entry d : Document} (h : nameAndType entry = .ok d) :
    stringAt d "name" = stringAt entry "name" := by
  obtain ⟨name, hname, h⟩ := Except.bind_eq_ok.1 h
  obtain ⟨type, -, h⟩ := Except.bind_eq_ok.1 h
  cases h
  unfold stringAt
  cases hv : elem entry "name" with
  | none => rw [hv] at hname; cases hname
  | some v =>
    rw [hv] at hname
    cases hname
    rfl

theorem loggedIndex_eq_ok {lib : Bsoncxx} {index d : Document} :
    loggedIndex lib index = .ok d ↔ (∃ j, lib.toJson index = .ok j) ∧ d = index := by
  constructor
  · intro h
    obtain ⟨j, hj, h⟩ := Except.bind_eq_ok.1 h
    cases h
    exact ⟨⟨j, hj⟩, rfl⟩
  · rintro ⟨⟨j, hj⟩, rfl⟩
    exact Except.bind_eq_ok.2 ⟨j, hj, rfl⟩

/-- The full array and the search of each listing, as the two loops over one projection. -/
theorem lookupAgrees_iff_loops {lib : Bsoncxx} {listing : Listing} {name : Bytes}
    {listed : List Document} {project : Document → Except Exn Document}
    {report : List Document → List Document}
    (heverything : listing.everything lib name listed = appendAll project listed)
    (hbyName : listing.byName lib name listed = (appendFirst name project listed).map report)
    (hproject : ∀ x d, project x = .ok d → stringAt d "name" = stringAt x "name")
    (hnames : ∀ x ∈ listed, ∃ s, stringAt x "name" = some s) :
    LookupAgrees lib listing name listed ↔
      ∃ all message, appendAll project listed = .ok all ∧
        report (all.find? (named name)).toList =
          match all.find? (named name) with
          | some d => [d]
          | none => [errorDoc message] := by
  unfold LookupAgrees
  rw [heverything, hbyName]
  refine exists_congr fun all => exists_congr fun message => and_congr_right fun hall => ?_
  rw [appendFirst_of_appendAll hproject hnames hall]
  constructor
  · intro h; exact Except.ok.inj h
  · intro h; exact congrArg Except.ok h

theorem orError_toList {message : String} {found : Option Document} :
    orError message found.toList =
      match found with
      | some d => [d]
      | none => [errorDoc (text message)] := by
  cases found <;> rfl

theorem lookupAgrees_databases {lib : Bsoncxx} {name : Bytes} {listed : List Document}
    (h : ∀ entry ∈ listed, Entry .databases entry) :
    LookupAgrees lib .databases name listed := by
  have hbyName : Listing.byName lib name listed .databases =
      (appendFirst name pure listed).map (orError "Database not found") := rfl
  rw [lookupAgrees_iff_loops rfl hbyName (fun x d hd => by cases hd; rfl) fun x hx => (h x hx).name]
  exact ⟨listed, _, List.mapM_pure.trans (congrArg _ (List.map_id _)), orError_toList⟩

theorem lookupAgrees_collections {lib : Bsoncxx} {name : Bytes} {listed : List Document}
    (h : ∀ entry ∈ listed, Entry .collections entry) :
    LookupAgrees lib .collections name listed := by
  have hbyName : Listing.byName lib name listed .collections =
      (appendFirst name nameAndType listed).map (orError "Collection not found") := rfl
  rw [lookupAgrees_iff_loops rfl hbyName (fun _ _ => nameAndType_name) fun x hx => (h x hx).name]
  obtain ⟨all, hall⟩ := appendAll_ok fun x hx => nameAndType_ok (h x hx)
  exact ⟨all, _, hall, orError_toList⟩

/-- The search for an index has no error for what is not there, and the log of each entry may
throw. -/
theorem lookupAgrees_indexes_iff {lib : Bsoncxx} {name : Bytes} {listed : List Document}
    (hname : name ≠ text "") (h : ∀ entry ∈ listed, Entry .indexes entry) :
    LookupAgrees lib .indexes name listed ↔
      (∃ entry ∈ listed, named name entry) ∧ ∀ entry ∈ listed, ∃ j, lib.toJson entry = .ok j := by
  have hbyName : Listing.byName lib name listed .indexes =
      (appendFirst name (loggedIndex lib) listed).map id := by
    show indexesArray lib name listed = _
    unfold indexesArray
    rw [if_neg hname]
    cases appendFirst name (loggedIndex lib) listed <;> rfl
  have heverything : Listing.everything lib name listed .indexes =
      appendAll (loggedIndex lib) listed := by
    show indexesArray lib (text "") listed = _
    unfold indexesArray
    rw [if_pos rfl]
  have hself : ∀ x d, loggedIndex lib x = .ok d → d = x := fun x d hd => (loggedIndex_eq_ok.1 hd).2
  rw [lookupAgrees_iff_loops heverything hbyName (fun x d hd => by rw [hself x d hd]) fun x hx =>
    (h x hx).name]
  constructor
  · rintro ⟨all, message, happend, hfound⟩
    have hprints : ∀ entry ∈ listed, ∃ j, lib.toJson entry = .ok j := by
      intro entry hentry
      obtain ⟨d, hd⟩ := appendAll_mem happend entry hentry
      exact (loggedIndex_eq_ok.1 hd).1
    obtain rfl := appendAll_eq_self hself happend
    refine ⟨?_, hprints⟩
    cases hsearch : all.find? (named name) with
    | none => rw [hsearch] at hfound; cases hfound
    | some d => exact ⟨d, List.mem_of_find?_eq_some hsearch, List.find?_some hsearch⟩
  · rintro ⟨⟨entry, hentry, hnamed⟩, hprints⟩
    obtain ⟨all, happend⟩ := appendAll_ok fun x hx => ⟨x, loggedIndex_eq_ok.2 ⟨hprints x hx, rfl⟩⟩
    obtain rfl := appendAll_eq_self hself happend
    refine ⟨all, [], happend, ?_⟩
    cases hsearch : all.find? (named name) with
    | none => exact absurd hnamed (List.find?_eq_none.1 hsearch entry hentry)
    | some d => rfl

/-- **When a lookup agrees with the full listing.** For databases and collections always; for
indexes only when one has the name, since nothing is appended when none has, and when the log
prints every entry. -/
theorem lookupAgrees_iff (lib : Bsoncxx) (listing : Listing) (name : Bytes)
    (listed : List Document) (hname : name ≠ text "")
    (hlisted : ∀ entry ∈ listed, Entry listing entry) :
    LookupAgrees lib listing name listed ↔
      (listing = .indexes → (∃ entry ∈ listed, named name entry) ∧
        ∀ entry ∈ listed, ∃ j, lib.toJson entry = .ok j) := by
  cases listing with
  | databases => exact iff_of_true (lookupAgrees_databases hlisted) nofun
  | collections => exact iff_of_true (lookupAgrees_collections hlisted) nofun
  | indexes =>
    rw [lookupAgrees_indexes_iff hname hlisted]
    exact ⟨fun h _ => h, fun h => h rfl⟩

/-- The listing of a collection with no index of its own. -/
def idIndex : List Document := [[(text "name", .string (text "_id_"))]]

theorem entry_idIndex : ∀ entry ∈ idIndex, Entry .indexes entry := by
  intro entry hentry
  obtain rfl := List.mem_singleton.1 hentry
  exact ⟨⟨text "_id_", rfl⟩, nofun⟩

theorem lookupAgrees_idIndex :
    LookupAgrees (.plain [] []) .indexes (text "_id_") idIndex ↔
      (Listing.indexes = .indexes → (∃ entry ∈ idIndex, named (text "_id_") entry) ∧
        ∀ entry ∈ idIndex, ∃ j, (Bsoncxx.plain [] []).toJson entry = .ok j) :=
  lookupAgrees_iff (.plain [] []) .indexes (text "_id_") idIndex (by decide) entry_idIndex

/-- An index that is not there: the array is empty, where the two siblings put an error. -/
theorem not_always_lookupAgrees :
    ¬ ∀ (lib : Bsoncxx) (listing : Listing) (name : Bytes) (listed : List Document),
      name ≠ text "" → (∀ entry ∈ listed, Entry listing entry) →
        LookupAgrees lib listing name listed := by
  intro h
  obtain ⟨all, message, -, hlookup⟩ :=
    h (.plain [] []) .indexes (text "email_1") idIndex (by decide) entry_idIndex
  cases hsearch : all.find? (named (text "email_1")) with
  | none => rw [hsearch] at hlookup; cases hlookup
  | some d => rw [hsearch] at hlookup; cases hlookup

end SeastarStarter
