import StackScript.Builtin.Json
import StackScript.Proofs.Copies.Copying
import StackScript.Proofs.Copies.Projecting

/-!
# Documents through values and back

A document of JSON becomes a value: its arrays and objects are added to the store. The value becomes
a document again, with the members of objects in the order of their names. Between the two stand the
fields of structs, among which names that start with two underscores are not visible: all other
members come back as they were.

Main statements: `ofJson_made` and `toJsonTo_same` (both by induction on the document), and
`toJson_ofJson`, which is made of them.
-/
namespace StackScript

namespace JsonValue

/-! ## Documents -/

/-- A document whose numbers are whole and fit into 64 bits with a sign, without a name twice in an
object. -/
inductive Plain : JsonValue → Prop
  | null : Plain null
  | bool (b : Bool) : Plain (bool b)
  | whole {n : Int} (least : Decimal.leastInt64 ≤ n) (greatest : n ≤ Decimal.greatestInt64) :
      Plain (whole n)
  | string (text : String) : Plain (string text)
  | array {items : List JsonValue} (parts : ∀ item ∈ items, Plain item) : Plain (array items)
  | object {members : List (String × JsonValue)} (distinct : (members.map Prod.fst).Nodup)
      (parts : ∀ m ∈ members, Plain m.2) : Plain (object members)

/-- Documents that differ in the order of members at most. -/
inductive Same : JsonValue → JsonValue → Prop
  | null : Same null null
  | bool (b : Bool) : Same (bool b) (bool b)
  | whole (n : Int) : Same (whole n) (whole n)
  | fraction (x : Float) : Same (fraction x) (fraction x)
  | string (text : String) : Same (string text) (string text)
  | array {items others : List JsonValue} (parts : List.Forall₂ Same items others) :
      Same (array items) (array others)
  | object {members others ordered : List (String × JsonValue)} (order : ordered.Perm others)
      (names : members.map Prod.fst = ordered.map Prod.fst)
      (parts : List.Forall₂ Same (members.map Prod.snd) (ordered.map Prod.snd)) :
      Same (object members) (object others)

theorem Same.length_eq {members others : List (String × JsonValue)}
    (h : Same (.object members) (.object others)) : members.length = others.length := by
  cases h with
  | object order names _ =>
    rw [← order.length_eq]
    simpa using congrArg List.length names

mutual
/-- A document without the members that are not visible as fields. -/
def visible : JsonValue → JsonValue
  | array items => array (visibleItems items)
  | object members => object (visibleMembers members)
  | leaf => leaf

/-- The visible parts of items. -/
def visibleItems : List JsonValue → List JsonValue
  | [] => []
  | item :: rest => visible item :: visibleItems rest

/-- The members that are visible. -/
def visibleMembers : List (String × JsonValue) → List (String × JsonValue)
  | [] => []
  | (name, item) :: rest =>
    if StructObject.isVisible name then (name, visible item) :: visibleMembers rest
    else visibleMembers rest
end

theorem visibleItems_eq (items : List JsonValue) : visibleItems items = items.map visible := by
  induction items with
  | nil => simp [visibleItems]
  | cons item rest ih => simp [visibleItems, ih]

theorem visibleMembers_eq (members : List (String × JsonValue)) : visibleMembers members =
    (members.filter (StructObject.isVisible ·.1)).map fun m => (m.1, visible m.2) := by
  induction members with
  | nil => simp [visibleMembers]
  | cons m rest ih =>
    obtain ⟨name, item⟩ := m
    by_cases shown : StructObject.isVisible name = true <;> simp [visibleMembers, shown, ih]

/-- A document all of whose names are visible. -/
inductive Open : JsonValue → Prop
  | null : Open null
  | bool (b : Bool) : Open (bool b)
  | whole (n : Int) : Open (whole n)
  | fraction (x : Float) : Open (fraction x)
  | string (text : String) : Open (string text)
  | array {items : List JsonValue} (parts : ∀ item ∈ items, Open item) : Open (array items)
  | object {members : List (String × JsonValue)}
      (names : ∀ m ∈ members, StructObject.isVisible m.1 = true) (parts : ∀ m ∈ members, Open m.2) :
      Open (object members)

theorem Open.visible_eq {j : JsonValue} (h : Open j) : j.visible = j := by
  induction h with
  | array _ ih => rw [visible, visibleItems_eq, List.map_congr_left ih, List.map_id']
  | @object members names _ ih =>
    have same : ∀ m ∈ members, (m.1, m.2.visible) = m := fun m mem => by rw [ih m mem]
    rw [visible, visibleMembers_eq, List.filter_eq_self.2 names]
    rw [List.map_congr_left same, List.map_id']
  | null | bool | whole | fraction | string => simp [visible]

end JsonValue

/-! ## Values of documents -/

namespace Store

variable {s t u : Store} {v : Value} {j : JsonValue}

/-- A value represents a document that nests less deep than `depth`. -/
def Represents (s : Store) : (depth : Nat) → Value → JsonValue → Prop
  | 0, _, _ => False
  | _ + 1, v, .null => v = .nil
  | _ + 1, v, .bool b => v = .bool b
  | _ + 1, v, .whole n => v = .int (Int64.ofInt n)
  | _ + 1, v, .fraction x => v = .float64 x
  | _ + 1, v, .string text => v = .string text
  | depth + 1, v, .array items => ∃ r, v = .array r ∧ s.Has (.array r) ∧
    List.Forall₂ (Represents s depth) (s.array r).items.toList items
  | depth + 1, v, .object members => ∃ r, v = .struct r ∧ s.Has (.struct r) ∧
    List.Forall₂ (fun f m => f.1 = m.1 ∧ Represents s depth f.2 m.2) (s.struct r).fields members

/-- What a value represents stays when places are added, and may nest deeper. -/
theorem Represents.later {d e : Nat} (h : s.Represents d v j) (more : s.GrowsTo u) (le : d ≤ e) :
    u.Represents e v j := by
  induction d generalizing v j e with
  | zero => exact h.elim
  | succ d ih =>
    obtain ⟨e, rfl⟩ := Nat.exists_eq_add_one_of_ne_zero (Nat.ne_zero_of_lt le)
    have inner {v : Value} {j : JsonValue} (h : s.Represents d v j) : u.Represents e v j :=
      ih h (Nat.le_of_succ_le_succ le)
    cases j with
    | array items =>
      obtain ⟨r, rfl, there, holds⟩ := h
      refine ⟨r, rfl, more.has _ there, ?_⟩
      rw [more.array there]
      exact holds.imp fun _ _ => inner
    | object members =>
      obtain ⟨r, rfl, there, holds⟩ := h
      refine ⟨r, rfl, more.has _ there, ?_⟩
      rw [more.struct there]
      exact holds.imp fun _ _ => .imp_right inner
    | null | bool | whole | fraction | string => exact h

theorem card_places_le (more : s.GrowsTo u) : s.places.card ≤ u.places.card :=
  Finset.card_le_card fun _ mem => mem_places.2 (more.has _ (mem_places.1 mem))

theorem card_places_add (s : Store) (o : Aggregated) : s.places.card < (s.add o).2.places.card := by
  refine Finset.card_lt_card (Finset.ssubset_iff_of_subset ?_ |>.2 ⟨(s.add o).1, ?_, ?_⟩)
  · exact fun _ mem => mem_places.2 ((keeps_add (fun _ => True) s o).has _ (mem_places.1 mem))
  · exact mem_places.2 has_add
  · exact fun mem => not_has_add (mem_places.1 mem)

/-- A value represents a document, which nests no deeper than there are places. -/
def Made (s : Store) (v : Value) (j : JsonValue) : Prop := s.Represents (s.places.card + 1) v j

theorem Made.later (h : s.Made v j) (more : s.GrowsTo u) : u.Made v j :=
  Represents.later h more (Nat.succ_le_succ (card_places_le more))

/-- A new array whose items represent documents represents the array of these. -/
theorem made_array {vs : List Value} {items : List JsonValue}
    (made : List.Forall₂ s.Made vs items) :
    (s.newArray { items := vs.toArray }).2.Made (.array (s.newArray { items := vs.toArray }).1)
      (.array items) := by
  have deeper := card_places_add s (.array { items := vs.toArray })
  have added := keeps_add (fun _ => True) s (.array { items := vs.toArray })
  refine ⟨_, rfl, has_add (o := .array { items := vs.toArray }), ?_⟩
  rw [array_newArray]
  exact made.imp fun _ _ holds => Represents.later holds added deeper

/-- A new struct whose fields represent documents represents the object of these. -/
theorem made_struct {fields : List (String × Value)} {members : List (String × JsonValue)}
    (made : List.Forall₂ (fun f m => f.1 = m.1 ∧ s.Made f.2 m.2) fields members) :
    (s.newStruct { fields := fields }).2.Made (.struct (s.newStruct { fields := fields }).1)
      (.object members) := by
  have deeper := card_places_add s (.struct { fields := fields })
  have added := keeps_add (fun _ => True) s (.struct { fields := fields })
  have new : (s.newStruct { fields := fields }).2.struct (s.newStruct { fields := fields }).1 =
      { fields := fields } :=
    Aggregated.struct.inj (object_add (s := s) (o := .struct { fields := fields }))
  refine ⟨_, rfl, has_add (o := .struct { fields := fields }), ?_⟩
  rw [new]
  exact made.imp fun _ _ => .imp_right fun holds => Represents.later holds added deeper

end Store

namespace JsonFn

open StoreM (bind_of_ok map_of_ok)

variable {s t u : Store} {v : Value} {j : JsonValue}

theorem ofJsonItems_eq (items : List JsonValue) : ofJsonItems items = items.mapM ofJson := by
  induction items with
  | nil => simp [ofJsonItems]
  | cons item rest ih => simp [ofJsonItems, List.mapM_cons, ih]

theorem ofJsonMembers_eq (members : List (String × JsonValue)) :
    ofJsonMembers members = members.mapM fun m => (m.1, ·) <$> ofJson m.2 := by
  induction members with
  | nil => simp [ofJsonMembers]
  | cons m rest ih => simp [ofJsonMembers, List.mapM_cons, ih]

/-- A document becomes a value that represents it, whatever the store. -/
theorem ofJson_made (plain : j.Plain) (t : Store) :
    ∃ v u, ofJson j t = (.ok v, u) ∧ t.GrowsTo u ∧ u.Made v j := by
  induction plain generalizing t with
  | null => exact ⟨.nil, t, by simp [ofJson]; rfl, .refl t, rfl⟩
  | bool b => exact ⟨.bool b, t, by simp [ofJson]; rfl, .refl t, rfl⟩
  | string text => exact ⟨.string text, t, by simp [ofJson]; rfl, .refl t, rfl⟩
  | whole least greatest =>
    exact ⟨.int _, t, by simp [ofJson, greatest]; rfl, .refl t, rfl⟩
  | @array items _ ih =>
    obtain ⟨vs, u, run, more, made⟩ := StoreM.mapM_forall₂ (P := Store.Made)
      (fun made more => made.later more) (fun item mem t _ => ih item mem t) (.refl t)
    refine ⟨_, _, ?_, more.trans (Store.keeps_add _ u (.array { items := vs.toArray })),
      Store.made_array made⟩
    rw [ofJson, ofJsonItems_eq, bind_of_ok run]
    rfl
  | @object members _ _ ih =>
    have each : ∀ m ∈ members, ∀ t, ∃ f u, ((m.1, ·) <$> ofJson m.2) t = (.ok f, u) ∧
        t.GrowsTo u ∧ f.1 = m.1 ∧ u.Made f.2 m.2 := by
      intro m mem t
      obtain ⟨v, u, run, more, made⟩ := ih m mem t
      exact ⟨(m.1, v), u, map_of_ok run, more, rfl, made⟩
    obtain ⟨fields, u, run, more, made⟩ := StoreM.mapM_forall₂
      (P := fun u (f : String × Value) (m : String × JsonValue) => f.1 = m.1 ∧ u.Made f.2 m.2)
      (fun made more => ⟨made.1, made.2.later more⟩) (fun m mem t _ => each m mem t) (.refl t)
    refine ⟨_, _, ?_, more.trans (Store.keeps_add _ u (.struct { fields := fields })),
      Store.made_struct made⟩
    rw [ofJson, ofJsonMembers_eq, bind_of_ok run]
    rfl

/-! ## Documents of values -/

/-- A computation on each of a list of values that leaves the store as it is. -/
theorem mapM_reads {α β γ : Type} {f : α → StoreM β} {R : β → γ → Prop} {given : List α}
    {wanted : List γ}
    (each : List.Forall₂ (fun a c => ∃ b, f a s = (.ok b, s) ∧ R b c) given wanted) :
    ∃ made, given.mapM f s = (.ok made, s) ∧ List.Forall₂ R made wanted := by
  induction each with
  | nil => exact ⟨[], rfl, .nil⟩
  | cons first _ ih =>
    obtain ⟨b, run, related⟩ := first
    obtain ⟨made, runs, rest⟩ := ih
    refine ⟨b :: made, ?_, .cons related rest⟩
    rw [List.mapM_cons, bind_of_ok run, bind_of_ok runs]
    rfl

/-- The fields that a struct shows are its visible ones, in another order. -/
theorem shown_perm {o : StructObject} (distinct : (o.fields.map Prod.fst).Nodup) :
    (o.keys.filterMap fun k => (Association.find? k o.fields).map fun v => (k, v)).Perm
      (o.fields.filter (StructObject.isVisible ·.1)) := by
  have sorted := List.mergeSort_perm ((Association.keys o.fields).filter StructObject.isVisible)
    fun a b => !(b < a)
  have found : ∀ f ∈ o.fields.filter (StructObject.isVisible ·.1),
      (Association.find? f.1 o.fields).map (fun v => (f.1, v)) = some f := by
    intro f mem
    rw [Association.find?_of_mem distinct (List.mem_of_mem_filter mem)]
    rfl
  refine (sorted.filterMap _).trans (List.Perm.of_eq ?_)
  rw [Association.keys, List.filter_map, List.filterMap_map]
  exact (List.filterMap_congr found).trans List.filterMap_some

/-- A new key goes behind the others. -/
theorem insert_new {α : Type} {name : String} {entries : List (String × α)}
    (new : name ∉ entries.map Prod.fst) (value : α) :
    Association.insert name value entries = entries ++ [(name, value)] := by
  induction entries with
  | nil => rfl
  | cons e rest ih =>
    obtain ⟨other, new⟩ := not_or.1 (List.mem_cons.not.1 new)
    simp [Association.insert, Ne.symm other, ih new]

/-- Entries with distinct keys go behind the others one by one. -/
theorem foldl_insert {α : Type} {before entries : List (String × α)}
    (distinct : ((before ++ entries).map Prod.fst).Nodup) :
    entries.foldl (fun acc e => Association.insert e.1 e.2 acc) before = before ++ entries := by
  induction entries generalizing before with
  | nil => simp
  | cons e rest ih =>
    have new : e.1 ∉ before.map Prod.fst := by
      rw [List.map_append, List.nodup_append] at distinct
      exact fun mem => distinct.2.2 _ mem e.1 (by simp) rfl
    rw [List.foldl_cons, insert_new new, ih (by simpa using distinct)]
    simp

/-- Members by their names. -/
theorem names_eq {α β : Type} {R : α → β → Prop} {fields : List (String × α)}
    {members : List (String × β)}
    (each : List.Forall₂ (fun f m => f.1 = m.1 ∧ R f.2 m.2) fields members) :
    fields.map Prod.fst = members.map Prod.fst := by
  rw [← List.forall₂_eq_eq_eq, List.forall₂_map_left_iff, List.forall₂_map_right_iff]
  exact each.imp fun _ _ same => same.1

/-- The members of an object are made of the fields that stand for them, in any order. -/
theorem membersOf_same {part : Value → StoreM JsonValue} {fields : List (String × Value)}
    {members others : List (String × JsonValue)} (distinct : (members.map Prod.fst).Nodup)
    (each : List.Forall₂ (fun f m => f.1 = m.1 ∧ ∃ k, part f.2 s = (.ok k, s) ∧ k.Same m.2) fields
      members) (order : members.Perm others) :
    ∃ k, membersOf part fields s = (.ok k, s) ∧ k.Same (.object others) := by
  have named : List.Forall₂ (fun f m => ∃ k, (do pure (f.1, ← part f.2) : StoreM _) s = (.ok k, s) ∧
      (k.1 = m.1 ∧ k.2.Same m.2)) fields members := by
    refine each.imp fun f m ⟨name, k, run, same⟩ => ⟨(f.1, k), ?_, name, same⟩
    rw [bind_of_ok run]
    rfl
  obtain ⟨made, run, same⟩ := mapM_reads named
  have madeDistinct : (([] ++ made).map Prod.fst).Nodup := by
    rw [List.nil_append, names_eq same]
    exact distinct
  have sorted := List.mergeSort_perm (Association.ofList made) fun a b => !(b.1 < a.1)
  rw [Association.ofList, foldl_insert madeDistinct, List.nil_append] at sorted
  obtain ⟨ordered, same, permuted⟩ := List.perm_comp_forall₂ sorted same
  refine ⟨.ofMembers made, bind_of_ok run, .object (permuted.trans order) ?_ ?_⟩
  · rw [Association.ofList, foldl_insert madeDistinct, List.nil_append]
    exact names_eq same
  · rw [Association.ofList, foldl_insert madeDistinct, List.nil_append, List.forall₂_map_left_iff,
      List.forall₂_map_right_iff]
    exact same.imp fun _ _ same => same.2

theorem toJsonTo_same (plain : j.Plain) {d : Nat} (holds : s.Represents d v j) :
    ∃ k, toJsonTo d v s = (.ok k, s) ∧ k.Same j.visible := by
  induction plain generalizing d v with
  | null =>
    match d, holds with
    | _ + 1, rfl => exact ⟨.null, rfl, by simpa [JsonValue.visible] using .null⟩
  | bool b =>
    match d, holds with
    | _ + 1, rfl => exact ⟨.bool b, rfl, by simpa [JsonValue.visible] using .bool b⟩
  | string text =>
    match d, holds with
    | _ + 1, rfl => exact ⟨.string text, rfl, by simpa [JsonValue.visible] using .string text⟩
  | @whole n least greatest =>
    match d, holds with
    | _ + 1, rfl =>
      have back : (Int64.ofInt n).toInt = n := by
        refine Int64.toInt_ofInt_of_le ?_ ?_
        · simpa [Decimal.leastInt64] using least
        · simp only [Decimal.greatestInt64] at greatest
          omega
      refine ⟨.whole (Int64.ofInt n).toInt, rfl, ?_⟩
      simpa [back, JsonValue.visible] using .whole n
  | @array items _ ih =>
    match d, holds with
    | d + 1, holds =>
      obtain ⟨r, rfl, -, parts⟩ := holds
      have each := forall₂_imp_mem parts fun v _ item mem holds => ih item mem holds
      obtain ⟨made, run, same⟩ := mapM_reads each
      refine ⟨.array made, ?_, ?_⟩
      · exact bind_of_ok run
      · rw [JsonValue.visible, JsonValue.visibleItems_eq]
        exact .array (List.forall₂_map_right_iff.2 same)
  | @object members distinct _ ih =>
    match d, holds with
    | d + 1, holds =>
      obtain ⟨r, rfl, -, parts⟩ := holds
      have fieldsDistinct : ((s.struct r).fields.map Prod.fst).Nodup := by
        rw [names_eq parts]
        exact distinct
      have shown : List.Forall₂ (fun f m => f.1 = m.1 ∧ s.Represents d f.2 m.2)
          ((s.struct r).fields.filter (StructObject.isVisible ·.1))
          (members.filter (StructObject.isVisible ·.1)) :=
        List.rel_filter (fun f m same => by simp only [same.1]) parts
      have each : List.Forall₂
          (fun f m => f.1 = m.1 ∧ ∃ k, toJsonTo d f.2 s = (.ok k, s) ∧ k.Same m.2)
          ((s.struct r).fields.filter (StructObject.isVisible ·.1))
          (JsonValue.visibleMembers members) := by
        rw [JsonValue.visibleMembers_eq, List.forall₂_map_right_iff]
        exact forall₂_imp_mem shown fun f _ m mem holds =>
          ⟨holds.1, ih m (List.mem_of_mem_filter mem) holds.2⟩
      obtain ⟨ordered, each, permuted⟩ := List.perm_comp_forall₂ (shown_perm fieldsDistinct) each
      have orderedDistinct : (ordered.map Prod.fst).Nodup := by
        rw [(permuted.map Prod.fst).nodup_iff, JsonValue.visibleMembers_eq, List.map_map]
        exact distinct.sublist (List.filter_sublist.map Prod.fst)
      rw [JsonValue.visible]
      exact membersOf_same orderedDistinct each permuted

/-- A value that holds a document becomes its visible part. -/
theorem toJson_made (plain : j.Plain) (made : s.Made v j) :
    ∃ k, toJson v s = (.ok k, s) ∧ k.Same j.visible := by
  have deep : s.places.card + 1 ≤ s.objectCount + 2 := by
    have := s.card_places
    omega
  have holds : s.Represents (s.objectCount + 2) v j := Store.Represents.later made (.refl s) deep
  obtain ⟨k, run, same⟩ := toJsonTo_same plain holds
  exact ⟨k, (bind_of_ok (StoreM.get_eq s)).trans run, same⟩

/-- **Documents come back.** A document of whole numbers becomes a value and again a document, which
is the first one without the members, at any depth, whose names are not visible, up to the order of
members. It is the first one as a whole if all its names are visible. -/
theorem toJson_ofJson (plain : j.Plain) (s : Store) : ∃ v t k, ofJson j s = (.ok v, t) ∧
    toJson v t = (.ok k, t) ∧ k.Same j.visible ∧ (j.Open → k.Same j) := by
  obtain ⟨v, t, read, -, made⟩ := ofJson_made plain s
  obtain ⟨k, written, same⟩ := toJson_made plain made
  exact ⟨v, t, k, read, written, same, fun shown => shown.visible_eq ▸ same⟩

/-- A document with a member that is not visible inside an array. -/
def nestedDocument : JsonValue :=
  .object [("b", .array [.whole 2, .object [("__a", .null)]])]

theorem nestedDocument_comes_back : nestedDocument.Plain ∧ ∃ v t k,
    ofJson nestedDocument {} = (.ok v, t) ∧ toJson v t = (.ok k, t) ∧
      k.Same (.object [("b", .array [.whole 2, .object []])]) := by
  have plain : nestedDocument.Plain := by
    refine .object (by decide) fun m mem => ?_
    obtain rfl := List.mem_singleton.1 mem
    refine .array fun item mem => ?_
    rw [List.mem_pair] at mem
    rcases mem with rfl | rfl
    · exact .whole (by decide) (by decide)
    · refine .object (by decide) fun m mem => ?_
      obtain rfl := List.mem_singleton.1 mem
      exact .null
  obtain ⟨v, t, k, read, written, same, -⟩ := toJson_ofJson plain {}
  have shown : StructObject.isVisible "b" = true := by decide
  have hidden : StructObject.isVisible "__a" = false := by decide
  refine ⟨plain, v, t, k, read, written, ?_⟩
  simpa [nestedDocument, JsonValue.visible, JsonValue.visibleItems, JsonValue.visibleMembers, shown,
    hidden] using same

/-- Not every document comes back as a whole: a member is lost if its name starts with two
underscores. -/
theorem hidden_member_lost : ¬∀ j : JsonValue, j.Plain → ∀ s, ∃ v t k,
    ofJson j s = (.ok v, t) ∧ toJson v t = (.ok k, t) ∧ k.Same j := by
  intro always
  have plain : (JsonValue.object [("__a", .whole 1), ("b", .whole 2)]).Plain := by
    refine .object (by decide) fun m mem => ?_
    rw [List.mem_pair] at mem
    rcases mem with rfl | rfl <;> exact .whole (by decide) (by decide)
  obtain ⟨v, t, k, read, written, whole⟩ := always _ plain {}
  obtain ⟨v', t', read', -, made⟩ := ofJson_made plain {}
  obtain ⟨value, rfl⟩ := Prod.mk.inj (read.symm.trans read')
  obtain rfl := Except.ok.inj value
  obtain ⟨k', written', part⟩ := toJson_made plain made
  obtain rfl := Except.ok.inj (Prod.mk.inj (written.symm.trans written')).1
  have shown : StructObject.isVisible "b" = true := by decide
  have hidden : StructObject.isVisible "__a" = false := by decide
  rw [JsonValue.visible, JsonValue.visibleMembers_eq] at part
  cases whole with
  | object order names parts =>
    have two := (JsonValue.Same.object order names parts).length_eq
    have one := part.length_eq
    simp [hidden, shown] at one two
    omega

end JsonFn

end StackScript
