import BsaAcs.Gic.Theorems.Lpi

namespace Its

-- The registers that the tables of an ITS depend on.
structure TableRegisters (env : Env) (its typer : Nat) (baser : Nat → Nat) : Prop where
  typer : ∀ k writes, env.read k writes (env.itsBase its + armGitsTyper) = typer
  baser : ∀ it < armNumGitsBaser, ∀ k writes, env.read k writes (env.itsBase its + armGitsBaser it) =
    readBack (baser it) (env.itsBase its + armGitsBaser it) writes

-- A device or collection table belongs to the register.
def isTable (baser : Nat) : Bool :=
  armGitsBaserGetType baser = armGitsTblTypeDevice ∨ armGitsBaserGetType baser = armGitsTblTypeClcn

-- The bytes that 2^(bits+1) entries take.
def tableBytes (baser typer : Nat) : Nat :=
  let bits :=
    if armGitsBaserGetType baser = armGitsTblTypeDevice then armGitsTyperDevBits typer
    else armGitsTyperCIDBits typer
  2 ^ (bits + 1) * (armGitsBaserGetEntrySize baser + 1)

-- The registers with a table, from `it` on.
def tableRegisters (baser : Nat → Nat) (it n : Nat) : List Nat :=
  (List.range' it n).filter fun it => isTable (baser it)

-- The pages that the driver allocates for the table of a register.
def tablePages (baser typer : Nat) : Nat :=
  efiSizeToPages (tableSize (armGitsBaserGetType baser) typer (armGitsBaserGetEntrySize baser))

-- A register that held `baser` describes an allocated table: GITS_BASER has the address in bits 47 to 12, the
-- page size in bits 9 and 8 (0 is 4 KB) and the number of pages, less one, in bits 7 to 0.
structure TableProgrammed (baser typer address bytes value : Nat) : Prop where
  valid     : value.testBit 63 = true
  address   : field 47 12 value <<< 12 = address
  pages     : field 9 8 value = 0 ∧ efiPagesToSize (field 7 0 value + 1) = bytes
  enough    : tableBytes baser typer ≤ bytes
  tableType : armGitsBaserGetType value = armGitsBaserGetType baser
  entrySize : armGitsBaserGetEntrySize value = armGitsBaserGetEntrySize baser
  others    : ∀ i < 63, ¬(12 ≤ i ∧ i ≤ 47) → 8 ≤ i → value.testBit i = baser.testBit i

-- The loop over the registers.

section Loop

variable {env : Env} {its typer it n : Nat} {baser : Nat → Nat} {s s' : State}

theorem readBack_other {init addr addr' value : Nat} {purpose : Purpose} (h : addr' ≠ addr) :
    readBack init addr (mmioWrite purpose addr' value s).writes = readBack init addr s.writes := by
  simp [readBack, mmioWrite, h]

theorem armGitsBaser_ne {r : Nat} (h : r ≠ it) : env.itsBase its + armGitsBaser it ≠ env.itsBase its + armGitsBaser r := by
  simp only [armGitsBaser]
  omega

theorem tableRegisters_succ : tableRegisters baser it (n + 1) =
    if isTable (baser it) then it :: tableRegisters baser (it + 1) n else tableRegisters baser (it + 1) n := by
  simp only [tableRegisters, List.range'_succ, List.filter_cons]

-- What the loop leaves behind: an allocation for each table, and the register with its value.
structure LoopDone (env : Env) (its typer : Nat) (baser : Nat → Nat) (it n : Nat) (s s' : State) : Prop where
  requests : s'.requests =
    ((tableRegisters baser it n).map fun r => efiPagesToSize (tablePages (baser r) typer)).reverse ++ s.requests
  allocs   : s'.allocs = s.allocs + (tableRegisters baser it n).length
  values   : ∀ i r, (tableRegisters baser it n)[i]? = some r →
    readBack (baser r) (env.itsBase its + armGitsBaser r) s'.writes =
      baserValue (baser r) (env.alloc (s.allocs + i)) (tablePages (baser r) typer)
  before   : ∀ r < it, readBack (baser r) (env.itsBase its + armGitsBaser r) s'.writes =
    readBack (baser r) (env.itsBase its + armGitsBaser r) s.writes

theorem setItsTablesLoop_spec (hr : TableRegisters env its typer baser) (hn : it + n ≤ armNumGitsBaser)
    (h : setItsTablesLoop env its n it s = (.success, s'))
    (hw : ∀ r, it ≤ r → readBack (baser r) (env.itsBase its + armGitsBaser r) s.writes = baser r) :
    LoopDone env its typer baser it n s s' := by
  induction n generalizing it s
  case zero =>
    cases h
    exact ⟨rfl, rfl, fun _ _ hi => by simp [tableRegisters] at hi, fun _ _ => rfl⟩
  case succ n hi =>
    have hbaser (k : Nat) : env.read k s.writes (env.itsBase its + armGitsBaser it) = baser it := by
      rw [hr.baser it (by omega), hw it le_rfl]
    simp only [setItsTablesLoop, mmioRead, allocate, hbaser, hr.typer] at h
    split at h
    case isFalse hc =>
      have ht : isTable (baser it) = false := by simpa [isTable] using hc
      obtain ⟨h₁, h₂, h₃, h₄⟩ := @hi (it + 1) _ (by omega) h fun r hle => hw r (by omega)
      have hlist : tableRegisters baser it (n + 1) = tableRegisters baser (it + 1) n := by
        rw [tableRegisters_succ, ht]
        rfl
      rw [← hlist] at h₁ h₂ h₃
      exact ⟨h₁, h₂, h₃, fun r hlt => h₄ r (by omega)⟩
    case isTrue hc =>
      have ht : isTable (baser it) = true := by simpa [isTable] using hc
      split at h
      case isTrue => cases h
      case isFalse =>
        have hkept {r : Nat} (hne : r ≠ it) {value : Nat} {s : State} :
            readBack (baser r) (env.itsBase its + armGitsBaser r)
              (mmioWrite .other (env.itsBase its + armGitsBaser it) value s).writes =
              readBack (baser r) (env.itsBase its + armGitsBaser r) s.writes :=
          readBack_other (armGitsBaser_ne hne)
        obtain ⟨h₁, h₂, h₃, h₄⟩ := @hi (it + 1) _ (by omega) h fun r hle =>
          (hkept (by omega)).trans (hw r (by omega))
        have hlist : tableRegisters baser it (n + 1) = it :: tableRegisters baser (it + 1) n := by
          rw [tableRegisters_succ, if_pos ht]
        refine ⟨?_, ?_, ?_, ?_⟩
        · rw [hlist, h₁]
          simp [mmioWrite, tablePages]
        · rw [hlist, h₂]
          simp only [mmioWrite, List.length_cons]
          omega
        · intro i r hr
          rw [hlist] at hr
          cases i
          case zero =>
            simp only [List.getElem?_cons_zero, Option.some.injEq] at hr
            subst hr
            rw [h₄ it (by omega), readBack_mmioWrite]
            rfl
          case succ i =>
            rw [List.getElem?_cons_succ] at hr
            rw [h₃ i r hr]
            simp only [mmioWrite]
            congr 2
            omega
        · intro r hlt
          rw [h₄ r (by omega), hkept (by omega)]

end Loop

-- The value of the register, field by field.

section Value

variable {baser typer address pages hi lo w v : Nat}

theorem field_and : field hi lo (w &&& v) = field hi lo w &&& field hi lo v := by
  rw [field, Nat.shiftRight_and_distrib, Nat.and_mod_two_pow]
  rfl

theorem field_and_ones : field hi lo w &&& (2 ^ (hi - lo + 1) - 1) = field hi lo w := by
  rw [Nat.and_two_pow_sub_one_eq_mod]
  exact Nat.mod_mod _ _

theorem field_baserValue : field hi lo (baserValue baser address pages) =
    (field hi lo baser &&& field hi lo (2 ^ 64 - 1 - armGitsBaserPaMask)) |||
      (field hi lo address &&& field hi lo armGitsBaserPaMask) ||| field hi lo armGitsBaserValid |||
      field hi lo ((pages + 2 ^ 32 - 1) % 2 ^ 32) := by
  rw [baserValue, field_or, field_or, field_or, clear64, field_and, field_and]

-- A field that has nothing to do with the address and the valid bit.
theorem other_baserValue (h₁ : field hi lo (2 ^ 64 - 1 - armGitsBaserPaMask) = 2 ^ (hi - lo + 1) - 1)
    (h₂ : field hi lo armGitsBaserPaMask = 0) (h₃ : field hi lo armGitsBaserValid = 0) :
    field hi lo (baserValue baser address pages) =
      field hi lo baser ||| field hi lo ((pages + 2 ^ 32 - 1) % 2 ^ 32) := by
  rw [field_baserValue, h₁, h₂, h₃, field_and_ones, Nat.and_zero, Nat.or_zero, Nat.or_zero]

theorem size_baserValue : field 7 0 (baserValue baser address pages) =
    field 7 0 baser ||| field 7 0 ((pages + 2 ^ 32 - 1) % 2 ^ 32) :=
  other_baserValue (by decide) (by decide) (by decide)

theorem pageSize_baserValue : field 9 8 (baserValue baser address pages) =
    field 9 8 baser ||| field 9 8 ((pages + 2 ^ 32 - 1) % 2 ^ 32) :=
  other_baserValue (by decide) (by decide) (by decide)

theorem address_baserValue : field 47 12 (baserValue baser address pages) =
    field 47 12 address ||| field 47 12 ((pages + 2 ^ 32 - 1) % 2 ^ 32) := by
  have h₁ : field 47 12 (2 ^ 64 - 1 - armGitsBaserPaMask) = 0 := by decide
  have h₂ : field 47 12 armGitsBaserPaMask = 2 ^ (47 - 12 + 1) - 1 := by decide
  have h₃ : field 47 12 armGitsBaserValid = 0 := by decide
  rw [field_baserValue, h₁, h₂, h₃, Nat.and_zero, field_and_ones, Nat.zero_or, Nat.or_zero]

theorem armGitsBaserGetType_eq : armGitsBaserGetType w = field 58 56 w :=
  Nat.and_two_pow_sub_one_eq_mod _ 3

theorem armGitsBaserGetEntrySize_eq : armGitsBaserGetEntrySize w = field 52 48 w :=
  Nat.and_two_pow_sub_one_eq_mod _ 5

-- The bits above the number of pages that are not of the address.
theorem testBit_baserValue {i : Nat} (hp : 0 < pages) (hl : pages ≤ 256) (hi : i < 64) (hn : ¬(12 ≤ i ∧ i ≤ 47))
    (h8 : 8 ≤ i) : (baserValue baser address pages).testBit i = (baser.testBit i || decide (i = 63)) := by
  have hm : armGitsBaserPaMask.testBit i = false := by
    have hs : armGitsBaserPaMask = (2 ^ 36 - 1) <<< 12 := rfl
    rw [hs, Nat.testBit_shiftLeft, Nat.testBit_two_pow_sub_one]
    simp only [Bool.and_eq_false_imp, decide_eq_true_eq, decide_eq_false_iff_not]
    omega
  have hc : (2 ^ 64 - 1 - armGitsBaserPaMask).testBit i = true := by
    have hs : 2 ^ 64 - 1 - armGitsBaserPaMask = (2 ^ 16 - 1) <<< 48 ||| (2 ^ 12 - 1) := by decide
    rw [hs, Nat.testBit_or, Nat.testBit_shiftLeft, Nat.testBit_two_pow_sub_one, Nat.testBit_two_pow_sub_one]
    simp only [Bool.or_eq_true, Bool.and_eq_true, decide_eq_true_eq]
    omega
  have hv : armGitsBaserValid.testBit i = decide (i = 63) := by
    have hs : armGitsBaserValid = 2 ^ 63 := rfl
    rw [hs, Nat.testBit_two_pow]
    simp only [eq_comm]
  have hz : ((pages + 2 ^ 32 - 1) % 2 ^ 32).testBit i = false := by
    have hlt : 2 ^ 8 ≤ 2 ^ i := Nat.pow_le_pow_right two_pos h8
    have he : (pages + 2 ^ 32 - 1) % 2 ^ 32 = pages - 1 := by omega
    rw [he]
    exact Nat.testBit_lt_two_pow (by omega)
  simp only [baserValue, clear64, Nat.testBit_or, Nat.testBit_and, hm, hc, hv, hz, Bool.and_true, Bool.and_false,
    Bool.or_false]

theorem efiSizeToPages_eq {size : Nat} : efiSizeToPages size = (size + 4095) / 4096 := by
  have hm : size &&& 0xFFF = size % 2 ^ 12 := Nat.and_two_pow_sub_one_eq_mod size 12
  rw [efiSizeToPages, hm, Nat.shiftRight_eq_div_pow]
  split <;> omega

theorem efiPagesToSize_eq : efiPagesToSize pages = 4096 * pages := by
  rw [efiPagesToSize, Nat.shiftLeft_eq, Nat.mul_comm]

theorem tableBytes_pos : 0 < tableBytes baser typer :=
  Nat.mul_pos (Nat.two_pow_pos _) (Nat.succ_pos _)

-- A table that is not too large has the size that the driver computes.
theorem tablePages_eq (h : tableBytes baser typer ≤ 2 ^ 20) :
    tablePages baser typer = efiSizeToPages (tableBytes baser typer) := by
  have he : tableSize (armGitsBaserGetType baser) typer (armGitsBaserGetEntrySize baser) = tableBytes baser typer := by
    simp only [tableBytes] at h
    simp only [tableSize, tableBytes]
    generalize (if armGitsBaserGetType baser = armGitsTblTypeDevice then armGitsTyperDevBits typer
      else armGitsTyperCIDBits typer) = bits at h ⊢
    have hpow : 2 ^ (bits + 1) ≤ 2 ^ 20 := (Nat.le_mul_of_pos_right _ (Nat.succ_pos _)).trans h
    have hbits : bits + 1 ≤ 20 := (Nat.pow_le_pow_iff_right (by decide)).mp hpow
    rw [shl1, Nat.mod_eq_of_lt (by omega : bits + 1 < 32), Nat.one_shiftLeft, Nat.mod_eq_of_lt (by omega)]
  rw [tablePages, he]

-- What the register and the table have to be for the driver to get it right.
structure TableFits (baser typer address : Nat) : Prop where
  bytes    : tableBytes baser typer ≤ 2 ^ 20
  size     : field 7 0 baser ||| (efiSizeToPages (tableBytes baser typer) - 1) =
    efiSizeToPages (tableBytes baser typer) - 1
  pageSize : field 9 8 baser = 0
  address  : address < 2 ^ 48

-- Such a table has at most 256 pages, and their number is the last field of the register.
theorem tablePages_bounds (h : tableBytes baser typer ≤ 2 ^ 20) :
    0 < tablePages baser typer ∧ tablePages baser typer ≤ 2 ^ 8 := by
  have hpos := @tableBytes_pos baser typer
  rw [tablePages_eq h, efiSizeToPages_eq]
  omega

theorem sizeValue_eq (hp : 0 < pages) (hl : pages ≤ 2 ^ 8) : (pages + 2 ^ 32 - 1) % 2 ^ 32 = pages - 1 := by
  omega

theorem size_sub_one (hl : pages ≤ 2 ^ 8) : field 7 0 (pages - 1) = pages - 1 := by
  rw [field_eq]
  omega

theorem field_sub_one (hl : pages ≤ 2 ^ 8) (h8 : 8 ≤ lo) (hp : 0 < pages) : field hi lo (pages - 1) = 0 := by
  have hlt : 2 ^ 8 ≤ 2 ^ lo := Nat.pow_le_pow_right two_pos h8
  rw [field_eq, Nat.div_eq_of_lt (by omega), Nat.zero_mod]

theorem TableProgrammed.fits (ha : 2 ^ 12 ∣ address)
    (h : TableProgrammed baser typer address (efiPagesToSize (tablePages baser typer))
      (baserValue baser address (tablePages baser typer))) : TableFits baser typer address := by
  have ⟨hps, hpages⟩ := h.pages
  have hbytes : tableBytes baser typer ≤ 2 ^ 20 := by
    have henough := h.enough
    have hlt : field 7 0 (baserValue baser address (tablePages baser typer)) < 2 ^ 8 := Nat.mod_lt _ (by decide)
    rw [efiPagesToSize_eq] at henough
    rw [efiPagesToSize_eq, efiPagesToSize_eq] at hpages
    omega
  have ⟨hpos, hmax⟩ := tablePages_bounds hbytes
  have hvalue := sizeValue_eq hpos hmax
  refine ⟨hbytes, ?_, ?_, ?_⟩
  · have hsize := @size_baserValue baser address (tablePages baser typer)
    rw [hvalue, size_sub_one hmax] at hsize
    rw [efiPagesToSize_eq, efiPagesToSize_eq] at hpages
    rw [← tablePages_eq hbytes, ← hsize]
    omega
  · rw [pageSize_baserValue, Nat.or_eq_zero_iff] at hps
    exact hps.1
  · have haddr := h.address
    rw [address_baserValue, hvalue, field_sub_one hmax (by decide) hpos, Nat.or_zero, field_eq,
      Nat.shiftLeft_eq] at haddr
    omega

theorem TableFits.programmed (ha : 2 ^ 12 ∣ address) (h : TableFits baser typer address) :
    TableProgrammed baser typer address (efiPagesToSize (tablePages baser typer))
      (baserValue baser address (tablePages baser typer)) := by
  have ⟨hpos, hmax⟩ := tablePages_bounds h.bytes
  have hvalue := sizeValue_eq hpos hmax
  have hsize := h.size
  rw [← tablePages_eq h.bytes] at hsize
  refine ⟨?_, ?_, ⟨?_, ?_⟩, ?_, ?_, ?_, ?_⟩
  · rw [testBit_baserValue hpos hmax (by decide) (by decide) (by decide)]
    simp
  · have hl := h.address
    rw [address_baserValue, hvalue, field_sub_one hmax (by decide) hpos, Nat.or_zero, field_eq, Nat.shiftLeft_eq]
    omega
  · rw [pageSize_baserValue, hvalue, field_sub_one hmax (by decide) hpos, h.pageSize, Nat.or_zero]
  · rw [size_baserValue, hvalue, size_sub_one hmax, hsize, Nat.sub_add_cancel hpos]
  · have hpages := @efiSizeToPages_eq (tableBytes baser typer)
    rw [← tablePages_eq h.bytes] at hpages
    rw [efiPagesToSize_eq]
    omega
  · rw [armGitsBaserGetType_eq, armGitsBaserGetType_eq, other_baserValue (by decide) (by decide) (by decide), hvalue,
      field_sub_one hmax (by decide) hpos, Nat.or_zero]
  · rw [armGitsBaserGetEntrySize_eq, armGitsBaserGetEntrySize_eq,
      other_baserValue (by decide) (by decide) (by decide), hvalue, field_sub_one hmax (by decide) hpos, Nat.or_zero]
  · intro i hi hn h8
    rw [testBit_baserValue hpos hmax (by omega) hn h8]
    simp [show i ≠ 63 by omega]

theorem tableProgrammed_iff (ha : 2 ^ 12 ∣ address) :
    TableProgrammed baser typer address (efiPagesToSize (tablePages baser typer))
      (baserValue baser address (tablePages baser typer)) ↔ TableFits baser typer address :=
  ⟨TableProgrammed.fits ha, TableFits.programmed ha⟩

end Value

-- The `i`-th allocation of the call belongs to the `i`-th register with a table. The tables are programmed right
-- exactly if they all are small enough for the field and the registers have no bits set that are in the way.
theorem its_tables_programmed_iff {env : Env} {its typer : Nat} {baser : Nat → Nat} {s s' : State}
    (hr : TableRegisters env its typer baser) (ha : ∀ k, s.allocs ≤ k → 2 ^ 16 ∣ env.alloc k)
    (hw : ∀ it, readBack (baser it) (env.itsBase its + armGitsBaser it) s.writes = baser it)
    (h : armGicSetItsTables env its s = (.success, s')) :
    (∀ i it, (tableRegisters baser 0 armNumGitsBaser)[i]? = some it →
      ∃ bytes, s'.requests.reverse[s.requests.length + i]? = some bytes ∧
        TableProgrammed (baser it) typer (env.alloc (s.allocs + i)) bytes
          (readBack (baser it) (env.itsBase its + armGitsBaser it) s'.writes)) ↔
    ∀ i it, (tableRegisters baser 0 armNumGitsBaser)[i]? = some it →
      TableFits (baser it) typer (env.alloc (s.allocs + i)) := by
  have ⟨s₁, hloop, hreq, hwrites⟩ : ∃ s₁, setItsTablesLoop env its armNumGitsBaser 0 s = (.success, s₁) ∧
      s'.requests = numPages8 * size4KB :: s₁.requests ∧ s'.writes = s₁.writes := by
    rw [armGicSetItsTables] at h
    split at h
    case h_2 hne => exact absurd h (hne _)
    case h_1 s₁ he =>
      simp only at h
      split at h
      case isTrue => cases h
      case isFalse =>
        cases h
        exact ⟨s₁, he, rfl, rfl⟩
  have hdone := setItsTablesLoop_spec hr (by decide) hloop fun r _ => hw r
  refine forall₂_congr fun i it => forall_congr' fun hi => ?_
  have hlt := (List.getElem?_eq_some_iff.mp hi).1
  have hbytes : s'.requests.reverse[s.requests.length + i]? = some (efiPagesToSize (tablePages (baser it) typer)) := by
    rw [hreq, hdone.requests]
    simp only [List.reverse_cons, List.reverse_append, List.reverse_reverse, List.append_assoc]
    rw [List.getElem?_append_right (by simp), List.length_reverse, Nat.add_sub_cancel_left,
      List.getElem?_append_left (by simpa using hlt), List.getElem?_map, hi]
    rfl
  rw [hbytes, hwrites, hdone.values i it hi, ← tableProgrammed_iff (Nat.dvd_trans (by decide) (ha _ (by omega)))]
  simp

-- An ITS with these registers, on a system that has memory.
def tableEnv (typer : Nat) (baser : List Nat) : Env :=
  { oneIts with
    read := fun _ writes addr =>
      if addr = oneIts.itsBase 0 + armGitsTyper then typer
      else readBack (baser.getD ((addr - (oneIts.itsBase 0 + 0x100)) / 8) 0) addr writes }

theorem tableEnv_registers {typer : Nat} {baser : List Nat} :
    TableRegisters (tableEnv typer baser) 0 typer fun it => baser.getD it 0 := by
  refine ⟨fun _ _ => by simp [tableEnv], fun it _ _ _ => ?_⟩
  have hne : (tableEnv typer baser).itsBase 0 + armGitsBaser it ≠ oneIts.itsBase 0 + armGitsTyper := by
    simp only [tableEnv, oneIts, armGitsBaser, armGitsTyper]
    omega
  have hi : ((tableEnv typer baser).itsBase 0 + armGitsBaser it - (oneIts.itsBase 0 + 0x100)) / 8 = it := by
    simp only [tableEnv, oneIts, armGitsBaser]
    omega
  simp only [tableEnv] at hne hi ⊢
  rw [if_neg hne, hi]

-- GITS_BASER of a device table with entries of 8 bytes, and of a collection table with entries of 2 bytes.
def deviceBaser : Nat := 1 <<< 56 ||| 7 <<< 48
def collectionBaser : Nat := 4 <<< 56 ||| 1 <<< 48

-- 16 bits for the devices and 4 for the collections.
def smallTyper : Nat := 15 <<< 13 ||| 3 <<< 32

theorem small_tables_programmed :
    ∃ s', armGicSetItsTables (tableEnv smallTyper [deviceBaser, collectionBaser]) 0 initial = (.success, s') ∧
      ∀ i it, [0, 1][i]? = some it → ∃ bytes, s'.requests.reverse[i]? = some bytes ∧
        TableProgrammed ([deviceBaser, collectionBaser].getD it 0) smallTyper (0x10000 * (i + 1)) bytes
          (readBack ([deviceBaser, collectionBaser].getD it 0) (0x8080000 + armGitsBaser it) s'.writes) := by
  have h : armGicSetItsTables (tableEnv smallTyper [deviceBaser, collectionBaser]) 0 initial =
      (.success, (armGicSetItsTables (tableEnv smallTyper [deviceBaser, collectionBaser]) 0 initial).2) :=
    Prod.ext (by decide +kernel) rfl
  have hlist : tableRegisters (fun it => [deviceBaser, collectionBaser].getD it 0) 0 armNumGitsBaser = [0, 1] := by
    decide +kernel
  have hall := (its_tables_programmed_iff tableEnv_registers (fun k _ => Dvd.intro _ rfl) (fun _ => rfl) h).mpr ?_
  · rw [hlist] at hall
    refine ⟨_, h, fun i it hi => ?_⟩
    have ⟨bytes, hb, ht⟩ := hall i it hi
    have hz : initial.requests.length + i = i := Nat.zero_add i
    have hk : (tableEnv smallTyper [deviceBaser, collectionBaser]).alloc (initial.allocs + i) = 0x10000 * (i + 1) := by
      change 0x10000 * (0 + i + 1) = _
      rw [Nat.zero_add]
    rw [hz] at hb
    rw [hk] at ht
    exact ⟨bytes, hb, ht⟩
  · rw [hlist]
    intro i it hi
    match i, hi with
    | 0, hi =>
      cases hi
      exact ⟨by decide +kernel, by decide +kernel, by decide +kernel, by decide +kernel⟩
    | 1, hi =>
      cases hi
      exact ⟨by decide +kernel, by decide +kernel, by decide +kernel, by decide +kernel⟩

-- 2048 pages of a device table end up in the page size as well, pages that were in the register before stay
-- there, and a device table for 32 bits has a single page.
theorem tables_misprogrammed :
    (∃ s', armGicSetItsTables (tableEnv (19 <<< 13) [deviceBaser]) 0 initial = (.success, s') ∧
      ¬∃ bytes, s'.requests.reverse[0]? = some bytes ∧ TableProgrammed deviceBaser (19 <<< 13) 0x10000 bytes
        (readBack deviceBaser (0x8080000 + armGitsBaser 0) s'.writes)) ∧
    (∃ s', armGicSetItsTables (tableEnv smallTyper [collectionBaser ||| 0xFF]) 0 initial = (.success, s') ∧
      ¬∃ bytes, s'.requests.reverse[0]? = some bytes ∧ TableProgrammed (collectionBaser ||| 0xFF) smallTyper 0x10000 bytes
        (readBack (collectionBaser ||| 0xFF) (0x8080000 + armGitsBaser 0) s'.writes)) ∧
    (∃ s', armGicSetItsTables (tableEnv (31 <<< 13) [deviceBaser]) 0 initial = (.success, s') ∧
      ¬∃ bytes, s'.requests.reverse[0]? = some bytes ∧ TableProgrammed deviceBaser (31 <<< 13) 0x10000 bytes
        (readBack deviceBaser (0x8080000 + armGitsBaser 0) s'.writes)) := by
  refine ⟨⟨_, Prod.ext ?_ rfl, ?_⟩, ⟨_, Prod.ext ?_ rfl, ?_⟩, ⟨_, Prod.ext ?_ rfl, ?_⟩⟩
  case refine_2 =>
    rintro ⟨bytes, _, ht⟩
    exact absurd ht.pages.1 (by decide +kernel)
  case refine_4 =>
    rintro ⟨bytes, hb, ht⟩
    have hbytes : some bytes = some 0x1000 := hb.symm.trans (by decide +kernel)
    cases hbytes
    exact absurd ht.pages.2 (by decide +kernel)
  case refine_6 =>
    rintro ⟨bytes, hb, ht⟩
    have hbytes : some bytes = some 0x1000 := hb.symm.trans (by decide +kernel)
    cases hbytes
    exact absurd ht.enough (by decide +kernel)
  all_goals decide +kernel

end Its
