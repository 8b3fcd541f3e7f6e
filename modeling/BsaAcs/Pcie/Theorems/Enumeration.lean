import BsaAcs.Pcie.Enumeration
import BsaAcs.Pcie.Theorems.Positions

namespace Pcie

section BusNumbers

variable {sub sec pri : Nat}

theorem busNumRegCfg_toNat (hu : sub < 256) (hs : sec < 256) (hp : pri < 256) :
    (busNumRegCfg sub sec pri).toNat = sub * 2 ^ 16 + sec * 2 ^ 8 + pri := by
  have h₁ : sec <<< 8 ||| pri = sec * 2 ^ 8 + pri := by
    rw [←Nat.shiftLeft_add_eq_or_of_lt (show pri < 2 ^ 8 by omega), Nat.shiftLeft_eq]
  have h₂ : sub <<< 16 ||| (sec * 2 ^ 8 + pri) = sub * 2 ^ 16 + (sec * 2 ^ 8 + pri) := by
    rw [←Nat.shiftLeft_add_eq_or_of_lt (show _ < 2 ^ 16 by omega), Nat.shiftLeft_eq]
  rw [busNumRegCfg, Nat.or_assoc, h₁, h₂, BitVec.toNat_ofNat]
  omega

theorem field_eq (w : BitVec 32) (k : Nat) : (w >>> k &&& 0xFF).toNat = w.toNat / 2 ^ k % 2 ^ 8 := by
  rw [BitVec.toNat_and, BitVec.toNat_ushiftRight, Nat.shiftRight_eq_div_pow]
  exact Nat.and_two_pow_sub_one_eq_mod _ 8

-- The register gives back the three numbers.
theorem busNumRegCfg_fields (hu : sub < 256) (hs : sec < 256) (hp : pri < 256) :
    primaryBus (busNumRegCfg sub sec pri) = pri ∧ secondaryBus (busNumRegCfg sub sec pri) = sec ∧
    subordinateBus (busNumRegCfg sub sec pri) = sub := by
  have hz : primaryBus (busNumRegCfg sub sec pri) = (busNumRegCfg sub sec pri).toNat % 2 ^ 8 := by
    rw [primaryBus, BitVec.toNat_and]
    exact Nat.and_two_pow_sub_one_eq_mod _ 8
  simp only [hz, secondaryBus, subordinateBus, field_eq, busNumRegCfg_toNat hu hs hp]
  omega

theorem claims_busNumRegCfg {b : Nat} (hu : sub < 256) (hs : sec < 256) (hp : pri < 256) :
    Bus.claims (busNumRegCfg sub sec pri) b ↔ sec ≤ b ∧ b ≤ sub := by
  have ⟨_, h₂, h₃⟩ := busNumRegCfg_fields hu hs hp
  rw [Bus.claims, h₂, h₃]

end BusNumbers

namespace Bus

def length : Bus → Nat
  | nil              => 0
  | absent rest      => rest.length + 1
  | type0 _ rest     => rest.length + 1
  | type1 _ _ _ rest => rest.length + 1

-- There are at most 256 functions on a bus, here and behind every bridge.
def Bounded : Bus → Prop
  | nil                   => True
  | absent rest           => rest.Bounded
  | type0 _ rest          => rest.Bounded
  | type1 _ _ behind rest => behind.length ≤ 256 ∧ behind.Bounded ∧ rest.Bounded

def bridges : Bus → Nat
  | nil                   => 0
  | absent rest           => rest.bridges
  | type0 _ rest          => rest.bridges
  | type1 _ _ behind rest => behind.bridges + 1 + rest.bridges

-- The numbering in the order of the walk: the buses of a subtree have consecutive numbers from `sec`.
def number (n : Nat) : Bus → Nat → Bus
  | nil, _                        => nil
  | absent rest, sec              => absent (rest.number n sec)
  | type0 words rest, sec         => type0 words (rest.number n sec)
  | type1 words _ behind rest, sec =>
    type1 words (busNumRegCfg (sec + behind.bridges) sec n) (behind.number sec (sec + 1))
      (rest.number n (sec + behind.bridges + 1))

end Bus

-- The state as a function of one bus of it with the number `n`. Accesses to that bus and to all numbers
-- above it arrive at the bus.
structure Focus (C : Bus → Bus) (n : Nat) : Prop where
  read {B b i o}    : n ≤ b → b ≤ 255 → (C B).read priBus b i o = B.read n b i o
  write {B b i o d} : n ≤ b → b ≤ 255 → (C B).write priBus b i o d = C (B.write n b i o d)

-- A bus as a function of its functions from index `i` on. Bridges before do not claim numbers from
-- `sec` on.
structure Skips (P : Bus → Bus) (i sec : Nat) : Prop where
  readHere {R j o}       : (P R).readHere o (i + j) = R.readHere o j
  writeHere {R j o d}    : (P R).writeHere o d (i + j) = P (R.writeHere o d j)
  readBehind {R b j o}   : sec ≤ b → (P R).readBehind b j o = R.readBehind b j o
  writeBehind {R b j o d} : sec ≤ b → (P R).writeBehind b j o d = P (R.writeBehind b j o d)

theorem Focus.root : Focus id priBus :=
  ⟨fun _ _ => rfl, fun _ _ => rfl⟩

namespace Skips

variable {P Q : Bus → Bus} {i j sec sec' : Nat}

theorem start : Skips id 0 sec :=
  ⟨by simp, by simp, fun _ => rfl, fun _ => rfl⟩

theorem comp (hp : Skips P i sec) (hq : Skips Q j sec') (hs : sec ≤ sec') :
    Skips (fun R => P (Q R)) (i + j) sec' := by
  constructor
  case readHere    => intro R k o; rw [Nat.add_assoc, hp.readHere, hq.readHere]
  case writeHere   => intro R k o d; rw [Nat.add_assoc, hp.writeHere, hq.writeHere]
  case readBehind  => intro R b k o hb; rw [hp.readBehind (hs.trans hb), hq.readBehind hb]
  case writeBehind => intro R b k o d hb; rw [hp.writeBehind (hs.trans hb), hq.writeBehind hb]

theorem absent : Skips .absent 1 sec := by
  constructor
  case readHere    => intro R k o; rw [Nat.add_comm, Bus.readHere]
  case writeHere   => intro R k o d; rw [Nat.add_comm, Bus.writeHere]
  case readBehind  => intro R b k o hb; rw [Bus.readBehind]
  case writeBehind => intro R b k o d hb; rw [Bus.writeBehind]

theorem type0 {words : Words type0Header} : Skips (.type0 words) 1 sec := by
  constructor
  case readHere    => intro R k o; rw [Nat.add_comm, Bus.readHere]
  case writeHere   => intro R k o d; rw [Nat.add_comm, Bus.writeHere]
  case readBehind  => intro R b k o hb; rw [Bus.readBehind]
  case writeBehind => intro R b k o d hb; rw [Bus.writeBehind]

theorem type1 {words : Words type1Header} {busNum : BitVec 32} {behind : Bus}
    (hc : ∀ b, sec ≤ b → ¬Bus.claims busNum b) : Skips (.type1 words busNum behind) 1 sec := by
  constructor
  case readHere    => intro R k o; rw [Nat.add_comm, Bus.readHere]
  case writeHere   => intro R k o d; rw [Nat.add_comm, Bus.writeHere]
  case readBehind  => intro R b k o hb; rw [Bus.readBehind, if_neg (hc b hb)]
  case writeBehind => intro R b k o d hb; rw [Bus.writeBehind, if_neg (hc b hb)]

end Skips

namespace Focus

variable {C P : Bus → Bus} {n i sec o : Nat} {R X : Bus} {d : BitVec 32}

-- The function at the index is the first of the rest.
theorem read_here (hf : Focus C n) (hp : Skips P i sec) (hn : n ≤ 255) :
    (C (P R)).read priBus n i o = R.readHere o 0 := by
  have := hp.readHere (R := R) (j := 0) (o := o)
  rw [hf.read le_rfl hn, Bus.read, if_pos rfl, ←this, Nat.add_zero]

theorem write_here (hf : Focus C n) (hp : Skips P i sec) (hn : n ≤ 255) :
    (C (P R)).write priBus n i o d = C (P (R.writeHere o d 0)) := by
  have := hp.writeHere (R := R) (j := 0) (o := o) (d := d)
  rw [hf.write le_rfl hn, Bus.write, if_pos rfl, ←this, Nat.add_zero]

-- With all higher numbers open behind the bridge, accesses to them arrive at the bus behind it.
theorem descend {words : Words type1Header} (hf : Focus C n) (hp : Skips P i sec) (hn : n < sec)
    (hs : sec ≤ 255) :
    Focus (fun X => C (P (.type1 words (busNumRegCfg 0xFF sec n) X R))) sec := by
  have ⟨_, hsec, _⟩ := busNumRegCfg_fields (show 0xFF < 256 by decide) (show sec < 256 by omega)
    (show n < 256 by omega)
  have hc {b : Nat} (h₁ : sec ≤ b) (h₂ : b ≤ 255) : Bus.claims (busNumRegCfg 0xFF sec n) b :=
    (claims_busNumRegCfg (by decide) (by omega) (by omega)).mpr ⟨h₁, h₂⟩
  constructor
  case read =>
    intro X b k o h₁ h₂
    rw [hf.read (by omega) h₂, Bus.read, if_neg (by omega), hp.readBehind h₁, Bus.readBehind,
      if_pos (hc h₁ h₂), hsec, Bus.read]
  case write =>
    intro X b k o d h₁ h₂
    rw [hf.write (by omega) h₂, Bus.write, if_neg (by omega), hp.writeBehind h₁, Bus.writeBehind,
      if_pos (hc h₁ h₂), hsec, Bus.write]

end Focus

theorem valPcieWriteCfg_eq {S : Type} {hw : Mmio S} {table : PcieInfoTable} {s : S} {bdf offset addr : Nat}
    {data : BitVec 32} (h : configAddr table bdf offset = some addr) :
    valPcieWriteCfg hw table s bdf offset data = hw.write s addr data := by
  simp only [valPcieWriteCfg, h, palMmioWrite]

namespace Ecam

variable (ecam : Ecam) {root : Bus} {bus index offset : Nat}

theorem configAddr_eq (hb : bus < 256) (hi : index < 256) (ho : offset < 4096) :
    configAddr ecam.table (pcieCreateBdf 0 bus (index / 8) (index % 8)) offset =
      some (ecam.base + (bus * 2 ^ 20 + index * 2 ^ 12 + offset)) := by
  have ⟨h₁, h₂, h₃, h₄⟩ := @extract_pcieCreateBdf 0 bus (index / 8) (index % 8) hb (by omega) (by omega)
  have hf := ecam.fits
  have hc : (ecam.base + cfgAddr bus (index / 8) (index % 8) + offset) % 2 ^ 64 =
      ecam.base + (bus * 2 ^ 20 + index * 2 ^ 12 + offset) := by
    rw [cfgAddr_eq, Nat.mod_eq_of_lt (by omega)]
    omega
  have hv : ¬(bus ≥ pcieMaxBus ∨ index / 8 ≥ pcieMaxDev ∨ index % 8 ≥ pcieMaxFunc) := by
    simp only [pcieMaxBus, pcieMaxDev, pcieMaxFunc]
    omega
  have he : ecamBase ecam.table (0 % 256) bus = ecam.base := by
    simp [ecamBase, table, PcieInfoBlock.covers, show bus ≤ 255 by omega]
  simp only [configAddr, h₁, h₂, h₃, h₄, hv, if_false, he, ecam.nonzero, hc]

-- The window takes an address apart as the accessors put it together.
theorem decode (hi : index < 256) (ho : offset < 4096) :
    (bus * 2 ^ 20 + index * 2 ^ 12 + offset) / 2 ^ 20 = bus ∧
    (bus * 2 ^ 20 + index * 2 ^ 12 + offset) / 2 ^ 12 % 2 ^ 8 = index ∧
    (bus * 2 ^ 20 + index * 2 ^ 12 + offset) % 2 ^ 12 = offset := by
  omega

theorem read_eq (hb : bus < 256) (hi : index < 256) (ho : offset < 4096) (ha : offset % 4 = 0) :
    valPcieReadCfg ecam.mmio ecam.table root (pcieCreateBdf 0 bus (index / 8) (index % 8)) offset =
      some (root.read priBus bus index offset) := by
  have ⟨h₁, h₂, h₃⟩ := @decode bus index offset hi ho
  have hm : (ecam.base + (bus * 2 ^ 20 + index * 2 ^ 12 + offset)) % 4 = 0 := by
    have := ecam.aligned
    omega
  simp only [valPcieReadCfg, ecam.configAddr_eq hb hi ho, Option.map_some, palMmioRead, hm, Nat.sub_zero,
    mmio, Nat.add_sub_cancel_left, h₁, h₂, h₃]

theorem write_eq {data : BitVec 32} (hb : bus < 256) (hi : index < 256) (ho : offset < 4096) :
    valPcieWriteCfg ecam.mmio ecam.table root (pcieCreateBdf 0 bus (index / 8) (index % 8)) offset data =
      root.write priBus bus index offset data := by
  have ⟨h₁, h₂, h₃⟩ := @decode bus index offset hi ho
  have hm (a : Nat) : ecam.mmio.write root (ecam.base + a) data =
      root.write priBus (a / 2 ^ 20) (a / 2 ^ 12 % 2 ^ 8) (a % 2 ^ 12) data := by
    simp only [mmio, Nat.add_sub_cancel_left]
  rw [valPcieWriteCfg_eq (ecam.configAddr_eq hb hi ho), hm, h₁, h₂, h₃]

end Ecam
-- The rest of the loop from an index on.
def slots (i : Nat) : List (Nat × Nat) :=
  (List.range' i (256 - i)).map fun i => (i / 8, i % 8)

theorem functionsOfBus_eq : functionsOfBus = slots 0 := by
  decide +kernel

theorem slots_succ {i : Nat} (h : i < 256) : slots i = (i / 8, i % 8) :: slots (i + 1) := by
  rw [slots, show 256 - i = 256 - (i + 1) + 1 by omega, List.range'_succ, List.map_cons, slots]

section Walk

variable (ecam : Ecam) {enumerate : Bus → Nat → Nat → Option (Bus × Nat)} {C P : Bus → Bus}
  {n i sec : Nat} {R : Bus} {v : Locals}

-- One round of the loop for each kind of function.

theorem functionLoop_skip {root : Bus} (hn : n < 256) (hi : i < 256)
    (hr : root.read priBus n i 0 = 0xFFFFFFFF) :
    functionLoop ecam.mmio ecam.table enumerate n (slots i) root v =
      functionLoop ecam.mmio ecam.table enumerate n (slots (i + 1)) root
        { v with vendorId := 0xFFFFFFFF } := by
  rw [slots_succ hi, functionLoop, ecam.read_eq hn hi (by decide) (by decide), Option.getD_some, hr]
  simp

theorem functionLoop_type0 {words : Words type0Header} (hf : Focus C n) (hp : Skips P i sec) (hn : n < 256)
    (hi : i < 256) :
    functionLoop ecam.mmio ecam.table enumerate n (slots i) (C (P (.type0 words R))) v =
      functionLoop ecam.mmio ecam.table enumerate n (slots (i + 1)) (C (P (.type0 words R)))
        { vendorId := words.word 0, headerValue := words.word headerOffset, secBus := v.secBus,
          subBus := pred32 v.secBus } := by
  have hv := words.vendor
  rw [slots_succ hi, functionLoop, ecam.read_eq hn hi (by decide) (by decide),
    ecam.read_eq hn hi (by decide) (by decide), hf.read_here hp (by omega), hf.read_here hp (by omega)]
  simp only [Bus.readHere, Option.getD_some, hv, or_self, if_false, words.header,
    show type0Header ≠ type1Header by decide, if_true]

theorem functionLoop_type1 {words : Words type1Header} {busNum : BitVec 32} {behind behind' : Bus}
    {subBus : Nat} (hf : Focus C n) (hp : Skips P i sec) (hn : n < 256) (hi : i < 256)
    (he : enumerate (C (P (.type1 words (busNumRegCfg 0xFF v.secBus n) behind R))) v.secBus
        (succ32 v.secBus) =
      some (C (P (.type1 words (busNumRegCfg 0xFF v.secBus n) behind' R)), subBus)) :
    functionLoop ecam.mmio ecam.table enumerate n (slots i) (C (P (.type1 words busNum behind R))) v =
      functionLoop ecam.mmio ecam.table enumerate n (slots (i + 1))
        (C (P (.type1 words (busNumRegCfg subBus v.secBus n) behind' R)))
        { vendorId := words.word 0, headerValue := words.word headerOffset,
          secBus := succ32 subBus, subBus } := by
  have hv := words.vendor
  have hw {busNum d : BitVec 32} {behind : Bus} :
      (Bus.type1 words busNum behind R).writeHere busNumRegOffset d 0 = .type1 words d behind R := by
    simp [Bus.writeHere]
  rw [slots_succ hi, functionLoop, ecam.read_eq hn hi (by decide) (by decide),
    ecam.read_eq hn hi (by decide) (by decide), hf.read_here hp (by omega), hf.read_here hp (by omega),
    ecam.write_eq hn hi (by decide), hf.write_here hp (by omega), hw]
  simp only [Bus.readHere, show 0 ≠ busNumRegOffset by decide, show headerOffset ≠ busNumRegOffset by decide,
    if_false, Option.getD_some, hv, or_self, words.header, if_true, he]
  rw [ecam.write_eq hn hi (by decide), hf.write_here hp (by omega), hw]

theorem functionLoop_nil (hf : Focus C n) (hp : Skips P i sec) (hn : n < 256) {k : Nat} (hk : i ≤ k) :
    functionLoop ecam.mmio ecam.table enumerate n (slots k) (C (P .nil)) v =
      some (C (P .nil), v.subBus) := by
  induction hm : 256 - k generalizing k v
  case zero =>
    simp [slots, hm, functionLoop]
  case succ m hi =>
    have ⟨j, hj⟩ := Nat.exists_eq_add_of_le hk
    rw [functionLoop_skip ecam hn (by omega), hi (by omega) (by omega)]
    rw [hf.read le_rfl (by omega), Bus.read, if_pos rfl, hj, hp.readHere, Bus.readHere]

theorem succ32_eq {k : Nat} (h : k < 256) : succ32 k = k + 1 :=
  Nat.mod_eq_of_lt (by omega)

theorem pred32_eq {k : Nat} (h : 0 < k) (h' : k < 256) : pred32 k = k - 1 := by
  rw [pred32]
  omega

-- The walk over the functions from an index on numbers the buses behind them from the next free number
-- on. The induction follows the topology: the bus behind a bridge is walked from its own start, with
-- the state seen from there.
theorem functionLoop_eq (vendorId headerValue : BitVec 32) {fuel : Nat} (hf : Focus C n)
    (hp : Skips P i v.secBus) (hn : n < v.secBus) (hl : i + R.length ≤ 256) (hb : R.Bounded)
    (hs : v.secBus + R.bridges ≤ 255) (hfuel : R.bridges ≤ fuel) (hv : v.subBus = v.secBus - 1) :
    functionLoop ecam.mmio ecam.table (pcieEnumerateDevice ecam.mmio ecam.table vendorId headerValue fuel)
      n (slots i) (C (P R)) v =
        some (C (P (R.number n v.secBus)), v.secBus + R.bridges - 1) := by
  induction R generalizing C P n i v fuel
  case nil =>
    rw [functionLoop_nil ecam hf hp (by omega) le_rfl, hv]
    simp [Bus.number, Bus.bridges]
  case absent rest hi =>
    simp only [Bus.length, Bus.bridges, Bus.Bounded] at hl hs hfuel hb
    rw [functionLoop_skip ecam (by omega) (by omega)]
    · exact hi (v := { v with vendorId := 0xFFFFFFFF }) hf (hp.comp .absent le_rfl) hn (by omega) hb hs
        hfuel hv
    · rw [hf.read_here hp (by omega), Bus.readHere]
  case type0 words rest hi =>
    simp only [Bus.length, Bus.bridges, Bus.Bounded] at hl hs hfuel hb
    rw [functionLoop_type0 ecam hf hp (by omega) (by omega), pred32_eq (by omega) (by omega)]
    exact hi (v := ⟨_, _, v.secBus, v.secBus - 1⟩) hf (hp.comp .type0 le_rfl) hn (by omega) hb hs hfuel rfl
  case type1 words busNum behind rest hi hi' =>
    simp only [Bus.length, Bus.bridges, Bus.Bounded] at hl hs hfuel hb
    have ⟨hbl, hbb, hbr⟩ := hb
    have he : pcieEnumerateDevice ecam.mmio ecam.table vendorId headerValue fuel
        (C (P (.type1 words (busNumRegCfg 0xFF v.secBus n) behind rest))) v.secBus (succ32 v.secBus) =
        some (C (P (.type1 words (busNumRegCfg 0xFF v.secBus n) (behind.number v.secBus (v.secBus + 1)) rest)),
          v.secBus + behind.bridges) := by
      cases fuel
      case zero => omega
      case succ fuel =>
        rw [pcieEnumerateDevice, if_neg (by simp only [pcieMaxBus]; omega), functionsOfBus_eq,
          succ32_eq (by omega)]
        refine (hi (v := ⟨vendorId, headerValue, v.secBus + 1, v.secBus⟩) (hf.descend hp hn (by omega)) .start
          (by simp) (by omega) hbb (by simp only; omega) (by omega) (by simp)).trans ?_
        simp only [Option.some.injEq, Prod.mk.injEq, id, true_and]
        omega
    rw [functionLoop_type1 ecam hf hp (by omega) (by omega) he, succ32_eq (by omega)]
    have hc (b : Nat) (hb : v.secBus + behind.bridges + 1 ≤ b) :
        ¬Bus.claims (busNumRegCfg (v.secBus + behind.bridges) v.secBus n) b := by
      rw [claims_busNumRegCfg (by omega) (by omega) (by omega)]
      omega
    refine (hi' (v := ⟨words.word 0, words.word headerOffset, v.secBus + behind.bridges + 1,
      v.secBus + behind.bridges⟩) hf (hp.comp (.type1 hc) (by simp only; omega)) (by simp only; omega) (by omega) hbr
      (by simp only; omega) (by omega) (by simp)).trans ?_
    simp only [Option.some.injEq, Prod.mk.injEq, Bus.number, Bus.bridges, true_and]
    omega

end Walk
namespace Bus

-- The secondary numbers of all bridges of a bus and of the buses behind them.
def numbers : Bus → List Nat
  | nil                        => []
  | absent rest                => rest.numbers
  | type0 _ rest               => rest.numbers
  | type1 _ busNum behind rest => secondaryBus busNum :: behind.numbers ++ rest.numbers

-- The numbers of the bridges of a bus itself.
def busNums : Bus → List (BitVec 32)
  | nil                   => []
  | absent rest           => rest.busNums
  | type0 _ rest          => rest.busNums
  | type1 _ busNum _ rest => busNum :: rest.busNums

-- On a bus with the number `n`, every bridge has that number as its primary number and covers exactly
-- the numbers that were assigned behind it, and so on behind every bridge.
def Numbered (n : Nat) : Bus → Prop
  | nil          => True
  | absent rest  => rest.Numbered n
  | type0 _ rest => rest.Numbered n
  | type1 _ busNum behind rest =>
    (primaryBus busNum = n ∧ n < secondaryBus busNum ∧ secondaryBus busNum ≤ subordinateBus busNum ∧
      ∀ b, claims busNum b ↔ b = secondaryBus busNum ∨ b ∈ behind.numbers) ∧
    behind.Numbered (secondaryBus busNum) ∧ rest.Numbered n

-- The bridges of a bus cover different numbers, and so do those of all buses behind it.
def Disjoint : Bus → Prop
  | nil          => True
  | absent rest  => rest.Disjoint
  | type0 _ rest => rest.Disjoint
  | type1 _ busNum behind rest =>
    (∀ busNum' ∈ rest.busNums, ∀ b, ¬(claims busNum b ∧ claims busNum' b)) ∧
    behind.Disjoint ∧ rest.Disjoint

-- The topology without its bus numbers.
def erase : Bus → Bus
  | nil                       => nil
  | absent rest               => absent rest.erase
  | type0 words rest          => type0 words rest.erase
  | type1 words _ behind rest => type1 words 0 behind.erase rest.erase

variable {R : Bus} {n sec : Nat}

theorem erase_number : (R.number n sec).erase = R.erase := by
  induction R generalizing n sec
  case nil                  => rfl
  case absent hi            => simp only [number, erase, hi]
  case type0 hi             => simp only [number, erase, hi]
  case type1 hi hi' => simp only [number, erase, hi, hi']

-- The numbers are assigned one after the other.
theorem numbers_number (hn : n < 256) (hs : sec + R.bridges ≤ 256) :
    (R.number n sec).numbers = List.range' sec R.bridges := by
  induction R generalizing n sec
  case nil       => rfl
  case absent hi => exact hi hn hs
  case type0 hi  => exact hi hn hs
  case type1 words busNum behind rest hi hi' =>
    simp only [bridges] at hs
    have ⟨_, h, _⟩ := busNumRegCfg_fields (show sec + behind.bridges < 256 by omega)
      (show sec < 256 by omega) hn
    simp only [number, numbers, bridges, h]
    rw [hi (by omega) (by omega), hi' hn (by omega), Nat.add_assoc, Nat.add_assoc,
      show behind.bridges + (1 + rest.bridges) = 1 + behind.bridges + rest.bridges by omega,
      ←List.range'_append_1, Nat.add_comm 1 behind.bridges, List.range'_succ]

theorem mem_busNums_claims {busNum : BitVec 32} {b : Nat} (hn : n < 256) (hs : sec + R.bridges ≤ 256)
    (hm : busNum ∈ (R.number n sec).busNums) (hc : claims busNum b) : sec ≤ b := by
  induction R generalizing n sec
  case nil       => cases hm
  case absent hi => exact hi hn hs hm
  case type0 hi  => exact hi hn hs hm
  case type1 words busNum' behind rest hi hi' =>
    simp only [bridges] at hs
    simp only [number, busNums, List.mem_cons] at hm
    cases hm
    case inl he =>
      rw [he, claims_busNumRegCfg (by omega) (by omega) hn] at hc
      exact hc.left
    case inr hm =>
      have := hi' hn (by omega) hm
      omega

theorem numbered_number (hn : n < sec) (hs : sec + R.bridges ≤ 256) : (R.number n sec).Numbered n := by
  induction R generalizing n sec
  case nil       => trivial
  case absent hi => exact hi hn hs
  case type0 hi  => exact hi hn hs
  case type1 words busNum behind rest hi hi' =>
    simp only [bridges] at hs
    have ⟨h₁, h₂, h₃⟩ := busNumRegCfg_fields (show sec + behind.bridges < 256 by omega)
      (show sec < 256 by omega) (show n < 256 by omega)
    simp only [number, Numbered, h₁, h₂, h₃]
    refine ⟨⟨trivial, hn, by omega, fun b => ?_⟩, hi (by omega) (by omega), hi' (by omega) (by omega)⟩
    rw [claims_busNumRegCfg (by omega) (by omega) (by omega), numbers_number (by omega) (by omega),
      List.mem_range'_1]
    omega

theorem disjoint_number (hn : n < 256) (hs : sec + R.bridges ≤ 256) : (R.number n sec).Disjoint := by
  induction R generalizing n sec
  case nil       => trivial
  case absent hi => exact hi hn hs
  case type0 hi  => exact hi hn hs
  case type1 words busNum behind rest hi hi' =>
    simp only [bridges] at hs
    refine ⟨fun busNum' hm b hc => ?_, hi (by omega) (by omega), hi' hn (by omega)⟩
    have h₁ := (claims_busNumRegCfg (by omega) (by omega) hn).mp hc.left
    have h₂ := mem_busNums_claims hn (by omega) hm hc.right
    omega

end Bus

-- Every topology that does not run out of bus numbers is enumerated: the call returns the highest number
-- that it has assigned, and the bridges have been given numbers that nest like the topology.
theorem enumerate_numbers (ecam : Ecam) (vendorId headerValue : BitVec 32) (root : Bus)
    (hl : root.length ≤ 256) (hb : root.Bounded) (hn : root.bridges < 255) :
    ∃ result highest,
      (∀ fuel, root.bridges < fuel →
        valBsaPcieEnumerate ecam.mmio ecam.table vendorId headerValue fuel root = some (result, highest)) ∧
      result.erase = root.erase ∧ result.Numbered priBus ∧ result.Disjoint ∧ result.numbers.Nodup ∧
      (result.numbers = [] → highest = priBus) ∧
      (result.numbers ≠ [] → highest ∈ result.numbers ∧ ∀ b ∈ result.numbers, b ≤ highest) := by
  refine ⟨root.number priBus secBus, root.bridges, ?_, Bus.erase_number, ?_⟩
  · intro fuel hfuel
    have ⟨fuel', hf⟩ := Nat.exists_eq_add_of_lt hfuel
    rw [valBsaPcieEnumerate, hf, pcieEnumerateDevice, if_neg (by decide), functionsOfBus_eq]
    refine (functionLoop_eq ecam vendorId headerValue (v := ⟨vendorId, headerValue, secBus, priBus⟩)
      (C := id) (P := id) .root .start (show priBus < secBus by decide) (by omega) hb
      (by simp only [secBus]; omega) (by omega) rfl).trans ?_
    simp [secBus]
  · have hnum : (root.number priBus secBus).numbers = List.range' secBus root.bridges :=
      Bus.numbers_number (by decide) (by simp only [secBus]; omega)
    refine ⟨Bus.numbered_number (by decide) (by simp only [secBus]; omega),
      Bus.disjoint_number (by decide) (by simp only [secBus]; omega), ?_, ?_, ?_⟩
    · rw [hnum]
      exact List.nodup_range'
    · rw [hnum]
      intro he
      simpa [priBus] using congrArg List.length he
    · rw [hnum]
      intro he
      have : root.bridges ≠ 0 := fun h => he (by simp [h])
      refine ⟨List.mem_range'_1.mpr (by simp only [secBus]; omega), fun b hb => ?_⟩
      have := List.mem_range'_1.mp hb
      simp only [secBus] at this
      omega

theorem lowEcam_aligned : 0x40000000 % 4 = 0 := rfl

-- An endpoint and a bridge to another endpoint, in a window at 1 GB.
def lowEcam : Ecam where
  base    := 0x40000000
  nonzero := by decide
  aligned := lowEcam_aligned
  fits    := by decide

def endpoint : Words type0Header where
  word offset := if offset = 0 then 0x10411AF4 else 0
  vendor      := by decide
  header      := by decide

def bridge : Words type1Header where
  word offset := if offset = 0 then 0x000C1B36 else if offset = headerOffset then 0x00010000 else 0
  vendor      := by decide
  header      := by decide

-- A bridge with another bridge behind it, and a third one beside it.
def nestedBridges : Bus :=
  .type0 endpoint (.type1 bridge 0 (.type1 bridge 0 (.type0 endpoint .nil) (.type0 endpoint .nil))
    (.type1 bridge 0 (.type0 endpoint .nil) .nil))

theorem nested_bridges_numbered :
    ∃ result highest,
      valBsaPcieEnumerate lowEcam.mmio lowEcam.table 0 0 256 nestedBridges = some (result, highest) ∧
      result.erase = nestedBridges.erase ∧ result.Numbered priBus ∧ result.Disjoint ∧ result.numbers.Nodup ∧
      (result.numbers ≠ [] → highest ∈ result.numbers ∧ ∀ b ∈ result.numbers, b ≤ highest) := by
  have ⟨result, highest, hr, he, hn, hd, hu, _, hh⟩ := enumerate_numbers lowEcam 0 0 nestedBridges (by decide)
    (by simp [nestedBridges, Bus.Bounded, Bus.length]) (by decide)
  exact ⟨result, highest, hr 256 (by decide), he, hn, hd, hu, hh⟩

end Pcie
