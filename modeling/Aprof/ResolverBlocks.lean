import Aprof.ProfileSteps

/-! Which blocks are taken for the dynamic linker's resolver. A block whose object is
searched with success is flagged wherever it lies in that object; the flags are
right exactly when such a block lies in the range found. -/
namespace Aprof

open Relation

def Within (addr : UInt64) (range : UInt64 × Nat) : Prop :=
  range.1.toNat ≤ addr.toNat ∧ addr.toNat < range.1.toNat + range.2

instance (addr : UInt64) (range : UInt64 × Nat) : Decidable (Within addr range) := instDecidableAnd

/-- Control comes from another object to a block whose function has no object yet, while
no resolver is known. -/
structure Crosses (st : Registry) (info : BlockInfo) : Prop where
  needs : st.needsObject info = true
  unset : st.dlRuntimeResolveAddr = 0
  plain : info.isResolver = false
  other : info.lastObj.any (· ≠ (st.objectStep info).2) = true

/-- The object of the block has the code of a pattern in its text, at this range first. -/
def BlockInfo.HasResolver (platform : Platform) (info : BlockInfo) (range : UInt64 × Nat) : Prop :=
  ∃ di objName, info.debugInfo = some di ∧ di.filename = some objName ∧
    FoundIn platform info.memory objName di.textAvma di.textSize range

/-- The range was found when one of these blocks was registered, in the text of its object. -/
def FoundByCheck (platform : Platform) (past : List Registration) (range : UInt64 × Nat) : Prop :=
  ∃ entry ∈ past, Crosses entry.st entry.info ∧ entry.info.HasResolver platform range

/-- What entitles a block to the flag: its name, or its address in the range that the
runtime holds after `BB_start`, found for this block or one before. -/
def Entitled (platform : Platform) (past : List Registration) (st : Registry) (info : BlockInfo) : Prop :=
  info.name = some resolverName ∨
    (Within info.target (st.range platform info) ∧ FoundByCheck platform (⟨st,info⟩ :: past) (st.range platform info))

/-- The condition under which the flags are right: whenever control crosses into an
object with the code of the resolver, the block that has been entered lies in its range. -/
def SearchHits (platform : Platform) (st : Registry) (info : BlockInfo) : Prop :=
  Crosses st info → ∀ range, info.HasResolver platform range → Within info.target range

def FlaggedFor (platform : Platform) (log : List Registration) (name : Str) : Prop := ∃ entry ∈ log,
  (entry.st.block platform entry.info).isDlRuntimeResolve = true ∧ (entry.st.block platform entry.info).fn = name

/-- Every flag is deserved, and a function is skipped only with a flagged block. -/
structure OnlyResolver (platform : Platform) (log : List Registration) (st : Registry) : Prop where
  blocks : st.bbHt.nodes.Perm (log.map fun entry => entry.st.block platform entry.info)
  entitled : ∀ later entry past, log = later ++ entry :: past →
    (entry.st.block platform entry.info).isDlRuntimeResolve = true → Entitled platform past entry.st entry.info
  skipped : ∀ fn ∈ st.rt.fnHt.nodes, fn.skip = true → FlaggedFor platform log fn.name

section
variable {platform : Platform} {past : List Registration} {st : Registry} {info : BlockInfo}

theorem search_iff {range : UInt64 × Nat} :
    st.search platform info = some range ↔ Crosses st info ∧ info.HasResolver platform range := by
  have addr : info.isResolver = false → (st.noted info).dlRuntimeResolveAddr = st.dlRuntimeResolveAddr := by
    intro plain
    unfold Registry.noted
    rw [plain]
    rfl
  unfold Registry.search
  split
  · next unknown =>
    refine ⟨nofun,?_⟩
    rintro ⟨-,di,objName,known,-⟩
    rw [unknown] at known
    cases known
  · next di known =>
    split
    · next nameless =>
      refine ⟨nofun,?_⟩
      rintro ⟨-,di',objName,known',named,-⟩
      cases known.symm.trans known'
      rw [nameless] at named
      cases named
    · next objName named =>
      split
      · next searched =>
        obtain ⟨needs,unset,plain,other⟩ := searched
        rw [searchRuntimeResolve_iff]
        constructor
        · intro found
          exact ⟨⟨needs,addr plain ▸ unset,plain,other⟩,di,objName,known,named,found⟩
        · rintro ⟨-,di',objName',known',named',found⟩
          cases known.symm.trans known'
          cases named.symm.trans named'
          exact found
      · next missed =>
        refine ⟨nofun,?_⟩
        rintro ⟨⟨needs,unset,plain,other⟩,-⟩
        exact absurd ⟨needs,(addr plain).trans unset,plain,other⟩ missed

theorem searchHits_iff : SearchHits platform st info ↔
    ∀ range, st.search platform info = some range → Within info.target range := by
  constructor
  · intro hits range found
    obtain ⟨crosses,has⟩ := search_iff.mp found
    exact hits crosses range has
  · intro hits crosses range has
    exact hits range (search_iff.mpr ⟨crosses,has⟩)

theorem search_found {range : UInt64 × Nat} (found : st.search platform info = some range) :
    FoundByCheck platform (⟨st,info⟩ :: past) range := by
  obtain ⟨crosses,has⟩ := search_iff.mp found
  exact ⟨⟨st,info⟩,List.mem_cons_self,crosses,has⟩

theorem FoundByCheck.length {range : UInt64 × Nat} (found : FoundByCheck platform past range) : range.2 < 2 ^ 64 := by
  obtain ⟨entry,-,-,di,objName,-,-,-,before,pattern,after,patterns,⟨-,length⟩,-⟩ := found
  have lengths : ∀ pattern ∈ platform.patterns, pattern.len < 2 ^ 64 := by
    cases platform <;> simp [Platform.patterns,x86Pattern,x86Pattern28,ppc32Pattern,amd64Pattern]
  rw [length]
  exact lengths pattern (by rw [patterns]; exact List.mem_append_right _ List.mem_cons_self)

theorem range_some {range : UInt64 × Nat} (found : st.search platform info = some range) : st.range platform info = range := by
  unfold Registry.range
  rw [found]
  rfl

theorem range_none (missed : st.search platform info = none) :
    st.range platform info = ((st.noted info).dlRuntimeResolveAddr,st.dlRuntimeResolveLength) := by
  unfold Registry.range
  rw [missed]
  rfl

theorem within_of_lt {addr target : UInt64} {length : Nat} (low : addr ≤ target) (high : target < addr + length.toUInt64)
    (small : length < 2 ^ 64) : Within target (addr,length) := by
  have sum : (addr + length.toUInt64).toNat = (addr.toNat + length) % 2 ^ 64 := by
    rw [UInt64.toNat_add]
    simp
  have low' : addr.toNat ≤ target.toNat := UInt64.le_iff_toNat_le.mp low
  have high' : target.toNat < (addr + length.toUInt64).toNat := UInt64.lt_iff_toNat_lt.mp high
  have bound : addr.toNat < 2 ^ 64 := addr.toNat_lt
  have target' : target.toNat < 2 ^ 64 := target.toNat_lt
  constructor
  · exact low'
  · dsimp only
    omega

/-- Beyond 1 the address in the runtime is one that `check_code` has stored. -/
def Searched (platform : Platform) (past : List Registration) (st : Registry) : Prop :=
  1 < st.dlRuntimeResolveAddr → FoundByCheck platform past (st.dlRuntimeResolveAddr,st.dlRuntimeResolveLength)

theorem FoundByCheck.later {range : UInt64 × Nat} (found : FoundByCheck platform past range) (entry : Registration) :
    FoundByCheck platform (entry :: past) range := by
  obtain ⟨other,member,rest⟩ := found
  exact ⟨other,List.mem_cons_of_mem _ member,rest⟩

theorem Searched.range (searched : Searched platform past st) (above : 1 < (st.range platform info).1) :
    FoundByCheck platform (⟨st,info⟩ :: past) (st.range platform info) := by
  cases found : st.search platform info with
  | some range =>
    rw [range_some found]
    exact search_found found
  | none =>
    rw [range_none found] at above ⊢
    unfold Registry.noted at above ⊢
    cases resolver : info.isResolver with
    | true =>
      rw [resolver] at above
      exact absurd above (UInt64.lt_irrefl 1)
    | false =>
      rw [resolver] at above
      exact (searched above).later _

theorem flagged_entitled_iff (searched : Searched platform past st) :
    (st.isDlRuntimeResolve platform info = true → Entitled platform past st info) ↔ SearchHits platform st info := by
  rw [searchHits_iff]
  constructor
  · intro entitled range found
    have flagged : st.isDlRuntimeResolve platform info = true := by
      unfold Registry.isDlRuntimeResolve Registry.renamed
      simp [found]
    have plain := (search_iff.mp found).1.plain
    rcases entitled flagged with named | ⟨inside,-⟩
    · exact absurd (decide_eq_true named) (by rw [← BlockInfo.isResolver,plain]; exact Bool.false_ne_true)
    · rw [← range_some found]
      exact inside
  · intro hits flagged
    cases found : st.search platform info with
    | some range =>
      refine Or.inr ?_
      rw [range_some found]
      exact ⟨hits range found,search_found found⟩
    | none =>
      unfold Registry.isDlRuntimeResolve Registry.renamed at flagged
      rw [found] at flagged
      simp only [Option.isSome_none,Bool.false_or,Bool.or_eq_true] at flagged
      rcases flagged with named | inside
      · exact Or.inl (of_decide_eq_true named)
      · unfold Registry.inRange at inside
        simp only [Bool.and_eq_true,decide_eq_true_eq] at inside
        obtain ⟨⟨⟨-,above⟩,low⟩,high⟩ := inside
        have code := searched.range above
        exact Or.inr ⟨within_of_lt low high code.length,code⟩

end

section
variable {cfg : Config} {squares : Squares UInt64} {platform : Platform} {entry : Registry → BlockInfo → Prop}
  {log : List Registration} {st : Registry}

theorem recordInto_rest {fn : Str} {routine : Nat} {exit : Recorded} : (recordInto cfg st fn routine exit).bbHt = st.bbHt ∧
    (recordInto cfg st fn routine exit).dlRuntimeResolveAddr = st.dlRuntimeResolveAddr ∧
    (recordInto cfg st fn routine exit).dlRuntimeResolveLength = st.dlRuntimeResolveLength := by
  unfold recordInto
  split
  · exact ⟨rfl,rfl,rfl⟩
  · split_ifs <;> exact ⟨rfl,rfl,rfl⟩

theorem Registering.searched (run : Registering cfg squares platform entry log st) : Searched platform log st := by
  induction run with
  | start rt => exact fun above => absurd above (UInt64.not_lt.mpr (by decide : (0 : UInt64) ≤ 1))
  | block run info permitted ih => exact fun above => ih.range above
  | routine run incremental curr rid totalCost args ok ih => exact ih
  | point run incremental curr rid totalCost args ok ih => exact ih
  | @exit log st run fn routine exit ih =>
    obtain ⟨-,addr,length⟩ := @recordInto_rest cfg st fn routine exit
    unfold Searched
    rw [addr,length]
    exact ih

theorem OnlyResolver.block (only : OnlyResolver platform log st) (searched : Searched platform log st) {info : BlockInfo}
    (hits : SearchHits platform st info) : OnlyResolver platform (⟨st,info⟩ :: log) (st.newBlock platform info) := by
  refine ⟨?_,?_,?_⟩
  · exact (htAddNode_perm _ _).trans (only.blocks.cons _)
  · intro later entry past split flagged
    cases later with
    | nil =>
      cases split
      exact (flagged_entitled_iff searched).mpr hits flagged
    | cons first later =>
      cases split
      exact only.entitled later entry past rfl flagged
  · intro fn member skipped
    have steps := @newBlock_steps (fun _ _ => True) platform st info fun _ => trivial
    have flags := @steps_skips _ _ _ _ _ _ steps (fun _ => trivial) (FlaggedFor platform log) only.skipped fn member skipped
    rcases flags with ⟨entry,earlier,old⟩ | ⟨flagged,own⟩
    · exact ⟨entry,List.mem_cons_of_mem _ earlier,old⟩
    · exact ⟨⟨st,info⟩,List.mem_cons_self,flagged,own.symm⟩

theorem OnlyResolver.steps {after : Registry} (only : OnlyResolver platform log st) (blocks : after.bbHt = st.bbHt)
    (steps : ReflTransGen (ProfileStep (fun _ _ => True) (fun _ => False) False) st.rt after.rt) :
    OnlyResolver platform log after := by
  refine ⟨blocks ▸ only.blocks,only.entitled,?_⟩
  intro fn member skipped
  exact (@steps_skips _ _ _ _ _ _ steps (fun _ => trivial) (FlaggedFor platform log) only.skipped fn member skipped).resolve_right id

/-- In every run in which a successful search is made for a block of the resolver,
only blocks of the resolver are flagged and only their functions skipped; and the
next block is flagged rightly if and only if the same holds of it. -/
theorem resolver_flags_iff (run : Registering cfg squares platform (SearchHits platform) log st) :
    OnlyResolver platform log st ∧
    ∀ info, (st.isDlRuntimeResolve platform info = true → Entitled platform log st info) ↔ SearchHits platform st info := by
  refine ⟨?_,fun info => flagged_entitled_iff run.searched⟩
  induction run with
  | start rt =>
    refine ⟨List.Perm.of_eq htConstruct_nodes,fun later _ _ split => ?_,?_⟩
    · cases later <;> cases split
    intro fn member
    rw [show (emptyRegistry rt).rt.fnHt.nodes = [] from htConstruct_nodes] at member
    cases member
  | block run info permitted ih => exact ih.block run.searched permitted
  | routine run incremental curr rid totalCost args ok ih => exact ih.steps rfl (mergeRoutine_steps (fun _ => trivial) ok)
  | point run incremental curr rid totalCost args ok ih => exact ih.steps rfl (mergePoint_steps (fun _ _ _ _ _ => trivial) ok)
  | @exit log st run fn routine exit ih =>
    exact ih.steps recordInto_rest.1 (recordInto_steps (fun _ _ => trivial) fn routine exit)

end

/-- A memory with the code of the resolver at `0x4000`. -/
def linkerMemory (addr : UInt64) : UInt8 := amd64Pattern.code.getD (addr - 0x4000).toNat 0

def executable : Object := ⟨strHash "/bin/ls".toList,"/bin/ls".toList⟩

def mainBlock : BlockInfo :=
  ⟨0x1000,1,some "main".toList,none,none,some ⟨some executable.name,0x1000,0x1000⟩,linkerMemory,none⟩

/-- A block of the stripped linker, entered from the executable. -/
def linkerBlock (target : UInt64) (name : Option Str) : BlockInfo :=
  ⟨target,1,none,name,none,some ⟨some "/lib64/ld-2.19.so".toList,0x4000,0x1000⟩,linkerMemory,some (some executable)⟩

/-- The tables when `main` has been registered. -/
def mainRegistered : Registry := (emptyRegistry freshProfile).newBlock .amd64Linux mainBlock

theorem resolver_flags_entered : ∃ log st, Registering (smallConfig .rms) toolSquares .amd64Linux (SearchHits .amd64Linux) log st ∧
    log.length = 2 ∧ OnlyResolver .amd64Linux log st := by
  have first : SearchHits .amd64Linux (emptyRegistry freshProfile) mainBlock := by
    rintro ⟨-,-,-,other⟩
    cases other
  have second : SearchHits .amd64Linux mainRegistered (linkerBlock 0x4010 none) := by
    refine searchHits_iff.mpr fun range found => ?_
    have search : mainRegistered.search .amd64Linux (linkerBlock 0x4010 none) = some (0x4000,110) := by decide +kernel
    rw [← Option.some.inj (search.symm.trans found)]
    decide
  have run : Registering (smallConfig .rms) toolSquares .amd64Linux (SearchHits .amd64Linux)
      [⟨mainRegistered,linkerBlock 0x4010 none⟩,⟨emptyRegistry freshProfile,mainBlock⟩]
      (mainRegistered.newBlock .amd64Linux (linkerBlock 0x4010 none)) :=
    .block (.block (.start freshProfile) mainBlock first) (linkerBlock 0x4010 none) second
  exact ⟨_,_,run,rfl,(resolver_flags_iff run).1⟩

/-- The first block executed in the linker is one of `__tls_get_addr`: the search finds
the resolver elsewhere, and the block is flagged all the same. -/
theorem linker_block_flagged : ∃ log st, Registering (smallConfig .rms) toolSquares .amd64Linux (fun _ _ => True) log st ∧
    ¬OnlyResolver .amd64Linux log st := by
  have run : Registering (smallConfig .rms) toolSquares .amd64Linux (fun _ _ => True)
      [⟨mainRegistered,linkerBlock 0x4800 (some "__tls_get_addr".toList)⟩,⟨emptyRegistry freshProfile,mainBlock⟩]
      (mainRegistered.newBlock .amd64Linux (linkerBlock 0x4800 (some "__tls_get_addr".toList))) :=
    .block (.block (.start freshProfile) mainBlock trivial) _ trivial
  have flagged : (mainRegistered.block .amd64Linux (linkerBlock 0x4800 (some "__tls_get_addr".toList))).isDlRuntimeResolve =
      true := by decide +kernel
  have range : mainRegistered.range .amd64Linux (linkerBlock 0x4800 (some "__tls_get_addr".toList)) = (0x4000,110) := by
    decide +kernel
  refine ⟨_,_,run,fun only => ?_⟩
  rcases only.entitled [] _ _ rfl flagged with named | ⟨inside,-⟩
  · revert named
    decide
  · rw [range] at inside
    revert inside
    decide

end Aprof
