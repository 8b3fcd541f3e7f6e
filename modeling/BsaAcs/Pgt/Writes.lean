import BsaAcs.Pgt.Basic

namespace Pgt

-- The descriptors that a call writes to its tables, in order, next to what the call does. The writes of a
-- call that has not ended yet are those of its first turns.

inductive Kind
  | page
  | block
  | table
deriving DecidableEq, Repr

structure Written where
  kind  : Kind
  level : Nat
  desc  : Nat
  word  : Nat
deriving DecidableEq, Repr

def fillWrites (pf : Platform) (g : Globals) (memDesc : MemoryRegionDescriptor) :
    Nat → TtDescriptor → Nat → Nat → State → List Written × Option (Nat × State)
  | 0, _, _, _, _ => ([], none)
  | fuel + 1, tt, inputAddress, outputAddress, s =>
    if inputAddress < tt.inputTop then
      let desc := tt.tableDesc inputAddress
      let next (kind : Kind) (word : Nat) (s : State) :=
        let (writes, result) := fillWrites pf g memDesc fuel tt
          ((inputAddress + tt.blockSize) % 2 ^ 64) ((outputAddress + tt.blockSize) % 2 ^ 64) (s.write desc word)
        (⟨kind, tt.level, desc, word⟩ :: writes, result)
      if tt.level = 3 then
        next .page (pageDescriptor g outputAddress memDesc.attributes) s
      else if tt.blockEligible inputAddress outputAddress then
        next .block (blockDescriptor tt outputAddress memDesc.attributes) s
      else
        match s.nextTable pf g (s.mem desc) with
        | (none, s) => ([], some (acsStatusErr, s))
        | (some base, s) =>
          let ttNext := tt.nextLevel g base inputAddress outputAddress
          match fillWrites pf g memDesc fuel ttNext ttNext.inputBase ttNext.outputBase s with
          | (nested, none) => (nested, none)
          | (nested, some (status, s)) =>
            if status ≠ 0 then
              (nested, some (acsStatusErr, s.valMemoryFreePages base))
            else
              let (writes, result) := next .table (tableDescriptor g base) s
              (nested ++ writes, result)
    else
      ([], some (0, s))

def createWritesFrom (pf : Platform) (g : Globals) (fuel pageSizeLog2 ttBase : Nat) (desc : PgtDescriptor) :
    List MemoryRegionDescriptor → MemoryRegionDescriptor → State → List Written × Option CreateResult
  | [], memDesc, s => ([], some ⟨0, memDesc, { desc with pgtBase := ttBase }, s⟩)
  | it :: iter, memDesc, s =>
    if it.length = 0 then
      ([], some ⟨0, memDesc, { desc with pgtBase := ttBase }, s⟩)
    else if misaligned g.pageSize memDesc then
      ([], some ⟨acsStatusErr, memDesc, desc, s⟩)
    else if outOfRange desc.oas memDesc then
      ([], some ⟨acsStatusErr, memDesc, desc, s⟩)
    else
      let memDesc := truncateInput desc.ias memDesc
      if desc.tcr.tgSizeLog2.toNat ≠ pageSizeLog2 then
        ([], some ⟨acsStatusErr, memDesc, desc, s⟩)
      else
        let tt := rootTtDescriptor g pageSizeLog2 ttBase desc memDesc
        match fillWrites pf g memDesc fuel tt tt.inputBase tt.outputBase s with
        | (writes, none) => (writes, none)
        | (writes, some (status, s)) =>
          if status ≠ 0 then
            (writes, some ⟨acsStatusErr, memDesc, desc, s.valMemoryFreePages ttBase⟩)
          else
            let (later, result) := createWritesFrom pf g fuel pageSizeLog2 ttBase desc iter memDesc s
            (writes ++ later, result)

def createWrites (pf : Platform) (fuel : Nat) (memDesc : List MemoryRegionDescriptor) (desc : PgtDescriptor)
    (s : State) : List Written × Option CreateResult :=
  let g := createGlobals pf
  let (ttBase, s) := s.valMemoryAllocPages pf
  if ttBase = 0 then
    ([], some ⟨acsStatusErr, memDesc.headD terminator, desc, s⟩)
  else
    createWritesFrom pf g fuel (log2PageSize pf.pageSize) ttBase desc memDesc (memDesc.headD terminator)
      { s with mem := s.mem.set ttBase g.pageSize 0 }

-- Without the writes, this is the function itself.

theorem fillWrites_result {pf : Platform} {g : Globals} {md : MemoryRegionDescriptor} {fuel : Nat}
    {tt : TtDescriptor} {ia oa : Nat} {s : State} :
    (fillWrites pf g md fuel tt ia oa s).2 = fillFrom pf g md fuel tt ia oa s := by
  induction fuel generalizing tt ia oa s
  case zero => rfl
  case succ fuel ih =>
    simp only [fillWrites, fillFrom]
    split
    case isFalse => rfl
    case isTrue =>
      split
      case isTrue => exact ih
      case isFalse =>
        split
        case isTrue => exact ih
        case isFalse =>
          rcases s.nextTable pf g (s.mem (tt.tableDesc ia)) with ⟨_ | base, s₁⟩
          case none => rfl
          case some =>
            simp only
            rw [← ih]
            rcases fillWrites pf g md fuel (tt.nextLevel g base ia oa) (tt.nextLevel g base ia oa).inputBase
              (tt.nextLevel g base ia oa).outputBase s₁ with ⟨nested, _ | ⟨status, s₂⟩⟩
            case none => rfl
            case some =>
              simp only
              split
              case isTrue  => rfl
              case isFalse => exact ih

theorem createWritesFrom_result {pf : Platform} {g : Globals} {fuel p base : Nat} {desc : PgtDescriptor}
    {iter : List MemoryRegionDescriptor} {md : MemoryRegionDescriptor} {s : State} :
    (createWritesFrom pf g fuel p base desc iter md s).2 = createFrom pf g fuel p base desc iter md s := by
  induction iter generalizing md s
  case nil => rfl
  case cons it iter ih =>
    simp only [createWritesFrom, createFrom, fillTranslationTable]
    split
    case isTrue => rfl
    case isFalse =>
      split
      case isTrue => rfl
      case isFalse =>
        split
        case isTrue => rfl
        case isFalse =>
          split
          case isTrue => rfl
          case isFalse =>
            rw [← fillWrites_result]
            generalize fillWrites pf g _ fuel _ _ _ s = r
            rcases r with ⟨writes, _ | ⟨status, s₁⟩⟩
            case none => rfl
            case some =>
              simp only
              split
              case isTrue  => rfl
              case isFalse => exact ih

theorem createWrites_result {pf : Platform} {fuel : Nat} {rs : List MemoryRegionDescriptor} {desc : PgtDescriptor}
    {s : State} : (createWrites pf fuel rs desc s).2 = valPgtCreate pf fuel rs desc s := by
  simp only [createWrites, valPgtCreate]
  split
  case isTrue  => rfl
  case isFalse => exact createWritesFrom_result

end Pgt
