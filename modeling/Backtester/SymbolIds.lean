import Mathlib

/-!
# Symbol ids

The bindings number the symbols of a run : by the `symbol_map` of the caller, or by the alphabetical
order of the data keys. A map is accepted exactly if its ids are distinct `u32` values from 1 on and
it covers the data (`resolveSymbolMap_isOk_iff`). The ids of an accepted map can be built for every
run, and no two symbols share one (`symbol_ids_sound`).
-/

set_option linter.unusedSectionVars false

namespace Backtester

/-! ## Python values -/

/-- The exceptions that the bindings raise, and those that Python code raises itself. -/
inductive PyErr where
  | valueError (message : String)
  | typeError (message : String)
  | runtimeError (message : String)
  | keyError (message : String)
  | raised (message : String)
  deriving DecidableEq, Repr

/-- A dict with keys that are strings, in the order in which it was filled. -/
structure PyDict (V : Type) where
  items : List (String × V)
  nodup : (items.map Prod.fst).Nodup

namespace PyDict

variable {V W : Type}

/-- The keys of a dict, in the order of insertion. -/
def keys (dict : PyDict V) : List String := dict.items.map Prod.fst

/-- The value under a key. -/
def getItem (dict : PyDict V) (key : String) : Option V :=
  (dict.items.find? (·.1 = key)).map Prod.snd

/-- `keys.sort()`. -/
def sortedKeys (dict : PyDict V) : List String := dict.keys.insertionSort (· ≤ ·)

theorem getItem_eq_some_iff {dict : PyDict V} {key : String} {v : V} :
    dict.getItem key = some v ↔ (key, v) ∈ dict.items := by
  rw [getItem, Option.map_eq_some_iff]
  constructor
  · rintro ⟨item, hfind, rfl⟩
    have hkey : item.1 = key := by simpa using List.find?_some hfind
    exact hkey ▸ List.mem_of_find?_eq_some hfind
  · intro hmem
    have hsome : (dict.items.find? (·.1 = key)).isSome := by
      rw [List.find?_isSome]
      exact ⟨_, hmem, by simp⟩
    obtain ⟨item, hfind⟩ := Option.isSome_iff_exists.1 hsome
    have hkey : item.1 = key := by simpa using List.find?_some hfind
    have hitem : item = (key, v) :=
      List.inj_on_of_nodup_map dict.nodup (List.mem_of_find?_eq_some hfind) hmem hkey
    exact ⟨item, hfind, by rw [hitem]⟩

theorem isSome_getItem {dict : PyDict V} {key : String} : (dict.getItem key).isSome ↔
    key ∈ dict.keys := by
  rw [keys, List.mem_map, Option.isSome_iff_exists]
  constructor
  · rintro ⟨v, hv⟩
    exact ⟨_, getItem_eq_some_iff.1 hv, rfl⟩
  · rintro ⟨item, hitem, rfl⟩
    exact ⟨item.2, getItem_eq_some_iff.2 hitem⟩

theorem mem_sortedKeys {dict : PyDict V} {key : String} : key ∈ dict.sortedKeys ↔ key ∈ dict.keys :=
  List.mem_insertionSort _

theorem nodup_sortedKeys (dict : PyDict V) : dict.sortedKeys.Nodup :=
  (List.perm_insertionSort _ _).nodup_iff.2 dict.nodup

/-- The order in which a dict was filled does not show in its sorted keys. -/
theorem sortedKeys_congr {dict : PyDict V} {dict' : PyDict W}
    (h : ∀ key, key ∈ dict'.keys ↔ key ∈ dict.keys) :
    dict'.sortedKeys = dict.sortedKeys := by
  have hperm : dict'.sortedKeys.Perm dict.sortedKeys := by
    rw [List.perm_ext_iff_of_nodup (nodup_sortedKeys dict') (nodup_sortedKeys dict)]
    intro key
    rw [mem_sortedKeys, mem_sortedKeys]
    exact h key
  exact hperm.eq_of_pairwise' List.sortedLE_insertionSort.pairwise
    List.sortedLE_insertionSort.pairwise

end PyDict

/-! ## The map of the caller -/

/-- `HashMap<String, u32>`. -/
abbrev SymbolMap := String → Option ℕ

/-- The `u32` of a value, if it is one. `none` is a value that is not an integer. -/
def extractU32 (value : Option ℤ) : Option ℕ :=
  value.bind fun id => if 0 ≤ id ∧ id < 2 ^ 32 then some id.toNat else none

/-- The loop over `symbol_map`, with the ids met so far. -/
def readSymbolMap : List (String × Option ℤ) → SymbolMap → (ℕ → Option String) →
    Except PyErr SymbolMap
  | [], map, _ => .ok map
  | (key, value) :: items, map, idsToKeys =>
    match extractU32 value with
    | none =>
      .error (.valueError ("symbol_map: id for '" ++ key ++ "' must be a non-negative integer"))
    | some id =>
      if id = 0 then .error
        (.valueError ("symbol_map: id for '" ++ key ++ "' is 0; ids must be >= 1"))
      else
        match idsToKeys id with
        | some existingKey =>
          .error
            (.valueError ("symbol_map: duplicate id " ++ toString id ++ " for '" ++ existingKey ++
            "' and '" ++ key ++ "'"))
        | none =>
          readSymbolMap items (Function.update map key (some id))
            (Function.update idsToKeys id (some key))

/-- Every data key has an id. -/
def checkCoverage (map : SymbolMap) : List String → Except PyErr Unit
  | [] => .ok ()
  | key :: keys =>
    if (map key).isSome then checkCoverage map keys
    else .error (.valueError ("symbol_map is missing entry for data key '" ++ key ++ "'"))

/-- The part of `Backtester::new` about `symbol_map`. -/
def resolveSymbolMap {F : Type} (data : PyDict F) (symbolMap : Option (PyDict (Option ℤ))) :
    Except PyErr (Option SymbolMap) :=
  match symbolMap with
  | none => .ok none
  | some dict =>
    match readSymbolMap dict.items (fun _ => none) fun _ => none with
    | .error err => .error err
    | .ok map => (checkCoverage map data.keys).map fun _ => some map

/-! ## The ids of a run -/

/-- The loop that guards an explicit map. -/
def checkSymbolIds (map : SymbolMap) : List String → (ℕ → Option String) → Except PyErr Unit
  | [], _ => .ok ()
  | key :: keys, idsToKeys =>
    match map key with
    | none => .error (.valueError ("symbol_map is missing entry for data key '" ++ key ++ "'"))
    | some id =>
      match idsToKeys id with
      | some existingKey =>
        .error
          (.valueError ("symbol_map: duplicate id " ++ toString id ++ " for '" ++ existingKey ++
          "' and '" ++ key ++ "'"))
      | none => checkSymbolIds map keys (Function.update idsToKeys id (some key))

/-- Number the keys from `i + 1` on, in `u32`. -/
def numberFrom : ℕ → List String → SymbolMap → SymbolMap
  | _, [], ids => ids
  | i, key :: keys, ids =>
    numberFrom (i + 1) keys (Function.update ids key (some ((i + 1) % 2 ^ 32)))

/-- The map of the caller if it gives every key its own id, else the keys numbered from zero. -/
def buildSymbolIds (sortedKeys : List String) (explicitMap : Option SymbolMap) :
    Except PyErr SymbolMap :=
  match explicitMap with
  | some map => (checkSymbolIds map sortedKeys fun _ => none).map fun _ => map
  | none => .ok (numberFrom 0 sortedKeys fun _ => none)

/-! ## Maps that are accepted -/

theorem extractU32_eq_some_iff {value : Option ℤ} {id : ℕ} :
    extractU32 value = some id ↔ value = some (id : ℤ) ∧ id < 2 ^ 32 := by
  rw [extractU32, Option.bind_eq_some_iff]
  constructor
  · rintro ⟨n, rfl, h⟩
    split_ifs at h with hrange
    obtain rfl := Option.some.inj h
    exact ⟨by rw [Int.toNat_of_nonneg hrange.1], by omega⟩
  · rintro ⟨rfl, hid⟩
    have hrange : 0 ≤ (id : ℤ) ∧ (id : ℤ) < 2 ^ 32 := by omega
    exact ⟨id, rfl, by rw [if_pos hrange, Int.toNat_natCast]⟩

/-- The ids of a map : distinct `u32` values from 1 on. -/
structure Numbered (items : List (String × Option ℤ)) : Prop where
  inRange : ∀ item ∈ items, ∃ id : ℤ, item.2 = some id ∧ 1 ≤ id ∧ id < 2 ^ 32
  distinct : (items.map Prod.snd).Nodup

theorem extractU32_toNat {value : Option ℤ} {id : ℤ} (h : value = some id) (hpos : 1 ≤ id)
    (hlt : id < 2 ^ 32) :
    extractU32 value = some id.toNat :=
  extractU32_eq_some_iff.2 ⟨by rw [Int.toNat_of_nonneg (by omega)]; exact h, by omega⟩

theorem extractU32_inj {value value' : Option ℤ} {id : ℕ} (h : extractU32 value = some id)
    (h' : extractU32 value' = some id) : value' = value :=
  (extractU32_eq_some_iff.1 h').1.trans (extractU32_eq_some_iff.1 h).1.symm

theorem numbered_nil : Numbered [] := ⟨by simp, List.nodup_nil⟩

/-- Another entry has an id from 1 on that no entry had. -/
theorem numbered_cons {key : String} {value : Option ℤ} {items : List (String × Option ℤ)} :
    Numbered ((key, value) :: items) ↔ (∃ id, extractU32 value = some id ∧ id ≠ 0 ∧
      ∀ item ∈ items, extractU32 item.2 ≠ some id) ∧ Numbered items := by
  constructor
  · rintro ⟨inRange, distinct⟩
    obtain ⟨hfresh, hdistinct⟩ := List.nodup_cons.1 distinct
    obtain ⟨id, hvalue, hpos, hlt⟩ := inRange (key, value) List.mem_cons_self
    have hextract : extractU32 value = some id.toNat := extractU32_toNat hvalue hpos hlt
    refine ⟨⟨id.toNat, hextract, by omega, fun item hitem hsame => hfresh ?_⟩,
      fun item hitem => inRange item (List.mem_cons_of_mem _ hitem), hdistinct⟩
    exact List.mem_map.2 ⟨item, hitem, extractU32_inj hextract hsame⟩
  · rintro ⟨⟨id, hextract, hpos, hfresh⟩, inRange, distinct⟩
    obtain ⟨rfl, hlt⟩ := extractU32_eq_some_iff.1 hextract
    refine ⟨fun item hitem => ?_, List.nodup_cons.2 ⟨fun hmem => ?_, distinct⟩⟩
    · rcases List.mem_cons.1 hitem with rfl | hitem
      · exact ⟨id, rfl, by omega, by omega⟩
      · exact inRange item hitem
    · obtain ⟨item, hitem, hvalue⟩ := List.mem_map.1 hmem
      exact hfresh item hitem (by rw [hvalue]; exact hextract)

/-- The map that the loop reads : the last entry of a key counts. -/
def inserted : List (String × Option ℤ) → SymbolMap → SymbolMap
  | [], map => map
  | (key, value) :: items, map => inserted items (Function.update map key (extractU32 value))

/-- The loop accepts exactly the entries with distinct ids in range, none of which it has met. -/
theorem readSymbolMap_eq_ok_iff {items : List (String × Option ℤ)} {map map' : SymbolMap}
    {idsToKeys : ℕ → Option String} : readSymbolMap items map idsToKeys = .ok map' ↔
      Numbered items ∧ (∀ item ∈ items, ∀ id, extractU32 item.2 = some id → idsToKeys id = none) ∧
        map' = inserted items map := by
  induction items generalizing map idsToKeys with
  | nil =>
    rw [readSymbolMap, inserted, Except.ok.injEq]
    exact ⟨fun h => ⟨numbered_nil, by simp, h.symm⟩, fun h => h.2.2.symm⟩
  | cons item items ih =>
    obtain ⟨key, value⟩ := item
    rw [readSymbolMap, inserted, numbered_cons]
    cases hextract : extractU32 value with
    | none => simp
    | some id =>
      dsimp only
      by_cases hzero : id = 0
      · rw [if_pos hzero]
        simp [hzero]
      · rw [if_neg hzero]
        cases hmet : idsToKeys id with
        | some existingKey =>
          refine ⟨fun h => (nomatch h), fun ⟨_, hunmet, _⟩ => ?_⟩
          rw [hunmet _ List.mem_cons_self id hextract] at hmet
          cases hmet
        | none =>
          dsimp only
          rw [ih]
          constructor
          · rintro ⟨hitems, hunmet, rfl⟩
            have hunmet' : ∀ item ∈ items, ∀ id', extractU32 item.2 = some id' →
                id' ≠ id ∧ idsToKeys id' = none := by
              intro item hitem id' hid'
              have h := hunmet item hitem id' hid'
              by_cases hsame : id' = id
              · rw [hsame, Function.update_self] at h
                cases h
              · rw [Function.update_of_ne hsame] at h
                exact ⟨hsame, h⟩
            refine ⟨⟨⟨id, rfl, hzero, fun item hitem hid => (hunmet' item hitem id hid).1 rfl⟩,
              hitems⟩,
              fun item hitem id' hid' => ?_, rfl⟩
            rcases List.mem_cons.1 hitem with rfl | hitem
            · obtain rfl := Option.some.inj (hextract.symm.trans hid')
              exact hmet
            · exact (hunmet' item hitem id' hid').2
          · rintro ⟨⟨⟨id', hid', -, hfresh⟩, hitems⟩, hunmet, rfl⟩
            obtain rfl := Option.some.inj hid'
            refine ⟨hitems, fun item hitem id' hid' => ?_, rfl⟩
            have hne : id' ≠ id := fun hsame => hfresh item hitem (hsame ▸ hid')
            rw [Function.update_of_ne hne]
            exact hunmet item (List.mem_cons_of_mem _ hitem) id' hid'

theorem inserted_of_not_mem {items : List (String × Option ℤ)} {map : SymbolMap} {key : String}
    (h : key ∉ items.map Prod.fst) : inserted items map key = map key := by
  induction items generalizing map with
  | nil => rfl
  | cons item items ih =>
    obtain ⟨hne, hrest⟩ := List.ne_and_not_mem_of_not_mem_cons h
    rw [inserted, ih hrest, Function.update_of_ne hne]

theorem inserted_of_mem {items : List (String × Option ℤ)} (nodup : (items.map Prod.fst).Nodup)
    {map : SymbolMap} {key : String} {value : Option ℤ} (h : (key, value) ∈ items) :
    inserted items map key = extractU32 value := by
  induction items generalizing map with
  | nil => cases h
  | cons item items ih =>
    obtain ⟨hfresh, hrest⟩ := List.nodup_cons.1 nodup
    rcases List.mem_cons.1 h with rfl | h
    · rw [inserted, inserted_of_not_mem hfresh, Function.update_self]
    · exact ih hrest h

/-- The map of an accepted dict. -/
def PyDict.ids (dict : PyDict (Option ℤ)) : SymbolMap :=
  fun key => (dict.getItem key).bind extractU32

theorem inserted_items (dict : PyDict (Option ℤ)) :
    inserted dict.items (fun _ => none) = dict.ids := by
  funext key
  rw [PyDict.ids]
  cases hitem : dict.getItem key with
  | none =>
    have hkey : key ∉ dict.keys := fun h => by simp [← PyDict.isSome_getItem, hitem] at h
    exact inserted_of_not_mem hkey
  | some value => exact inserted_of_mem dict.nodup (PyDict.getItem_eq_some_iff.1 hitem)

/-- In an accepted dict every key has an id. -/
theorem exists_id {dict : PyDict (Option ℤ)} (numbered : Numbered dict.items) {key : String}
    (h : key ∈ dict.keys) : ∃ id, dict.ids key = some id ∧ 1 ≤ id ∧ id < 2 ^ 32 := by
  obtain ⟨value, hitem⟩ := Option.isSome_iff_exists.1 (PyDict.isSome_getItem.2 h)
  obtain ⟨id, hvalue, hpos, hlt⟩ := numbered.inRange _ (PyDict.getItem_eq_some_iff.1 hitem)
  have hid : extractU32 value = some id.toNat := extractU32_toNat hvalue hpos hlt
  exact ⟨id.toNat, by rw [PyDict.ids, hitem]; exact hid, by omega, by omega⟩

/-- In an accepted dict no two keys share an id. -/
theorem ids_inj {dict : PyDict (Option ℤ)} (numbered : Numbered dict.items)
    {key key' : String} {id : ℕ}
    (h : dict.ids key = some id) (h' : dict.ids key' = some id) : key = key' := by
  obtain ⟨value, hitem, hid⟩ := Option.bind_eq_some_iff.1 h
  obtain ⟨value', hitem', hid'⟩ := Option.bind_eq_some_iff.1 h'
  have hsame : (key, value) = (key', value') :=
    List.inj_on_of_nodup_map numbered.distinct (PyDict.getItem_eq_some_iff.1 hitem)
      (PyDict.getItem_eq_some_iff.1 hitem') (extractU32_inj hid' hid)
  exact congrArg Prod.fst hsame

theorem checkCoverage_eq_ok_iff {map : SymbolMap} {keys : List String} :
    checkCoverage map keys = .ok () ↔ ∀ key ∈ keys, (map key).isSome := by
  induction keys with
  | nil => simp [checkCoverage]
  | cons key keys ih =>
    rw [checkCoverage, List.forall_mem_cons]
    split_ifs with h
    · rw [ih]
      exact ⟨fun hkeys => ⟨h, hkeys⟩, And.right⟩
    · exact ⟨fun herr => (nomatch herr), fun hkeys => absurd hkeys.1 h⟩

/-- A map is accepted exactly if it is numbered and covers the data. -/
theorem resolveSymbolMap_eq_ok_iff {F : Type} {data : PyDict F} {dict : PyDict (Option ℤ)}
    {map : Option SymbolMap} : resolveSymbolMap data (some dict) = .ok map ↔
      Numbered dict.items ∧ (∀ key ∈ data.keys, key ∈ dict.keys) ∧ map = some dict.ids := by
  have hread : ∀ map', readSymbolMap dict.items (fun _ => none) (fun _ => none) = .ok map' ↔
      Numbered dict.items ∧ map' = dict.ids := by
    intro map'
    rw [readSymbolMap_eq_ok_iff, inserted_items]
    exact ⟨fun h => ⟨h.1, h.2.2⟩, fun h => ⟨h.1, fun _ _ _ _ => rfl, h.2⟩⟩
  have hcovers : Numbered dict.items → ((∀ key ∈ data.keys, (dict.ids key).isSome) ↔
      ∀ key ∈ data.keys, key ∈ dict.keys) := by
    intro numbered
    refine forall₂_congr fun key _ => ⟨fun h => ?_, fun h => ?_⟩
    · obtain ⟨id, hid⟩ := Option.isSome_iff_exists.1 h
      obtain ⟨value, hitem, -⟩ := Option.bind_eq_some_iff.1 hid
      exact PyDict.isSome_getItem.1 (by rw [hitem]; rfl)
    · obtain ⟨id, hid, -⟩ := exists_id numbered h
      rw [hid]
      rfl
  rw [resolveSymbolMap]
  cases hloop : readSymbolMap dict.items (fun _ => none) (fun _ => none) with
  | error err =>
    refine ⟨fun h => (nomatch h), fun ⟨numbered, _, _⟩ => ?_⟩
    rw [(hread dict.ids).2 ⟨numbered, rfl⟩] at hloop
    cases hloop
  | ok map' =>
    obtain ⟨numbered, rfl⟩ := (hread map').1 hloop
    dsimp only
    cases hcover : checkCoverage dict.ids data.keys with
    | error err =>
      refine ⟨fun h => (nomatch h), fun ⟨_, hkeys, _⟩ => ?_⟩
      rw [checkCoverage_eq_ok_iff.2 ((hcovers numbered).2 hkeys)] at hcover
      cases hcover
    | ok _ =>
      have hkeys := (hcovers numbered).1 (checkCoverage_eq_ok_iff.1 hcover)
      rw [Except.map, Except.ok.injEq]
      exact ⟨fun h => ⟨numbered, hkeys, h.symm⟩, fun h => h.2.2.symm⟩

theorem resolveSymbolMap_isOk_iff {F : Type} {data : PyDict F}
    {symbolMap : Option (PyDict (Option ℤ))} :
    (resolveSymbolMap data symbolMap).isOk ↔
      ∀ dict, symbolMap = some dict → Numbered dict.items ∧ ∀ key ∈ data.keys, key ∈ dict.keys := by
  cases symbolMap with
  | none => exact ⟨fun _ _ h => (nomatch h), fun _ => rfl⟩
  | some dict =>
    constructor
    · rintro h dict' ⟨⟩
      cases hmap : resolveSymbolMap data (some dict) with
      | error err =>
        rw [hmap] at h
        cases h
      | ok map =>
        obtain ⟨numbered, covers, -⟩ := resolveSymbolMap_eq_ok_iff.1 hmap
        exact ⟨numbered, covers⟩
    · intro h
      obtain ⟨numbered, covers⟩ := h dict rfl
      rw [resolveSymbolMap_eq_ok_iff.2 ⟨numbered, covers, rfl⟩]
      rfl

/-! ## Ids that are built -/

theorem checkSymbolIds_eq_ok {map : SymbolMap} {keys : List String} {idsToKeys : ℕ → Option String}
    (covered : ∀ key ∈ keys, ∃ id, map key = some id ∧ idsToKeys id = none) (nodup : keys.Nodup)
    (inj : ∀ key key' id, map key = some id → map key' = some id → key = key') :
    checkSymbolIds map keys idsToKeys = .ok () := by
  induction keys generalizing idsToKeys with
  | nil => rfl
  | cons key keys ih =>
    obtain ⟨hfresh, hrest⟩ := List.nodup_cons.1 nodup
    obtain ⟨id, hid, hunmet⟩ := covered key List.mem_cons_self
    rw [checkSymbolIds, hid]
    dsimp only
    rw [hunmet]
    refine ih (fun key' hkey' => ?_) hrest
    obtain ⟨id', hid', hunmet'⟩ := covered key' (List.mem_cons_of_mem _ hkey')
    have hne : id' ≠ id := fun hsame => hfresh (inj key key' id hid (hsame ▸ hid') ▸ hkey')
    exact ⟨id', hid', by rw [Function.update_of_ne hne, hunmet']⟩

theorem numberFrom_of_not_mem {i : ℕ} {keys : List String} {ids : SymbolMap} {key : String}
    (h : key ∉ keys) : numberFrom i keys ids key = ids key := by
  induction keys generalizing i ids with
  | nil => rfl
  | cons key' keys ih =>
    obtain ⟨hne, hrest⟩ := List.ne_and_not_mem_of_not_mem_cons h
    rw [numberFrom, ih hrest, Function.update_of_ne hne]

/-- Keys are numbered by their position. -/
theorem numberFrom_of_mem {i : ℕ} {keys : List String} (nodup : keys.Nodup) {ids : SymbolMap}
    {key : String}
    (h : key ∈ keys) : numberFrom i keys ids key = some ((i + keys.idxOf key + 1) % 2 ^ 32) := by
  induction keys generalizing i ids with
  | nil => cases h
  | cons key' keys ih =>
    obtain ⟨hfresh, hrest⟩ := List.nodup_cons.1 nodup
    rw [numberFrom]
    by_cases hsame : key' = key
    · subst hsame
      rw [numberFrom_of_not_mem hfresh, Function.update_self, List.idxOf_cons_self]
    · have hmem : key ∈ keys := (List.mem_cons.1 h).resolve_left (Ne.symm hsame)
      rw [ih hrest hmem, List.idxOf_cons_ne _ hsame]
      congr 2
      omega

/-- The bindings accept a symbol map exactly if its ids are distinct `u32` values from 1 on and it
covers the data. Every symbol of the data has an id of its own then, that of the map, or without a
map its rank among the sorted keys. -/
theorem symbol_ids_sound {F : Type} (data : PyDict F) (symbolMap : Option (PyDict (Option ℤ)))
    (few : data.items.length < 2 ^ 32 - 1) :
    ((resolveSymbolMap data symbolMap).isOk ↔
      ∀ dict, symbolMap = some dict → Numbered dict.items ∧ ∀ key ∈ data.keys, key ∈ dict.keys) ∧
    ∀ map, resolveSymbolMap data symbolMap = .ok map →
      ∃ ids, buildSymbolIds data.sortedKeys map = .ok ids ∧
      (∀ key ∈ data.keys, ∃ id, ids key = some id ∧ 1 ≤ id ∧ id < 2 ^ 32 ∧
        some id = symbolMap.elim (some (data.sortedKeys.idxOf key + 1)) (·.ids key)) ∧
      Set.InjOn ids {key | key ∈ data.keys} := by
  refine ⟨resolveSymbolMap_isOk_iff, fun map hmap => ?_⟩
  cases symbolMap with
  | none =>
    obtain rfl := Except.ok.inj hmap
    have hid : ∀ key ∈ data.keys, numberFrom 0 data.sortedKeys (fun _ => none) key =
        some (data.sortedKeys.idxOf key + 1) ∧ data.sortedKeys.idxOf key + 1 < 2 ^ 32 := by
      intro key hkey
      have hmem := PyDict.mem_sortedKeys.2 hkey
      have hidx := List.idxOf_lt_length_of_mem hmem
      have hlength : data.sortedKeys.length = data.items.length := by
        rw [PyDict.sortedKeys, List.length_insertionSort, PyDict.keys, List.length_map]
      have hlt : data.sortedKeys.idxOf key + 1 < 2 ^ 32 := by omega
      rw [numberFrom_of_mem data.nodup_sortedKeys hmem, Nat.zero_add, Nat.mod_eq_of_lt hlt]
      exact ⟨rfl, hlt⟩
    refine ⟨_, rfl, fun key hkey => ⟨_, (hid key hkey).1, Nat.le_add_left _ _, (hid key hkey).2,
      rfl⟩, ?_⟩
    intro key hkey key' hkey' hsame
    rw [(hid key hkey).1, (hid key' hkey').1, Option.some.injEq, Nat.add_right_cancel_iff] at hsame
    exact (List.idxOf_inj (PyDict.mem_sortedKeys.2 hkey)).1 hsame
  | some dict =>
    obtain ⟨numbered, covers, rfl⟩ := resolveSymbolMap_eq_ok_iff.1 hmap
    have hcheck : checkSymbolIds dict.ids data.sortedKeys (fun _ => none) = .ok () := by
      refine checkSymbolIds_eq_ok (fun key hkey => ?_) data.nodup_sortedKeys fun _ _ _ =>
        ids_inj numbered
      obtain ⟨id, hid, -⟩ := exists_id numbered (covers key (PyDict.mem_sortedKeys.1 hkey))
      exact ⟨id, hid, rfl⟩
    refine ⟨dict.ids, by rw [buildSymbolIds, hcheck, Except.map], fun key hkey => ?_, ?_⟩
    · obtain ⟨id, hid, hpos, hlt⟩ := exists_id numbered (covers key hkey)
      exact ⟨id, hid, hpos, hlt, hid.symm⟩
    · intro key hkey key' _ hsame
      obtain ⟨id, hid, -⟩ := exists_id numbered (covers key hkey)
      exact ids_inj numbered hid (hsame ▸ hid)

/-- A map for more than the data. Id 0 is not accepted. -/
theorem symbol_ids_sound_sample :
    let data : PyDict Unit := ⟨[("ETH", ()), ("BTC", ())], by decide⟩
    let dict : PyDict (Option ℤ) := ⟨[("BTC", some 7), ("SOL", some 2), ("ETH", some 3)], by decide⟩
    let zero : PyDict (Option ℤ) := ⟨[("BTC", some 0), ("ETH", some 3)], by decide⟩
    (resolveSymbolMap data (some dict)).isOk ∧ ¬(resolveSymbolMap data (some zero)).isOk ∧
      ∀ map, resolveSymbolMap data (some dict) = .ok map →
        ∃ ids, buildSymbolIds data.sortedKeys map = .ok ids ∧
          Set.InjOn ids {key | key ∈ data.keys} := by
  intro data dict zero
  obtain ⟨-, hids⟩ := symbol_ids_sound data (some dict) (by decide)
  refine ⟨by decide, by decide, fun map hmap => ?_⟩
  obtain ⟨ids, hbuild, -, hinj⟩ := hids map hmap
  exact ⟨ids, hbuild, hinj⟩

end Backtester
