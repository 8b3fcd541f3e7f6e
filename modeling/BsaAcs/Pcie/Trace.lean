import BsaAcs.Pcie.Enumeration

namespace Pcie

-- What `pcie_enumerate_device` does on its way: it is entered for a bus, takes a function for present
-- (with whether the vendor id was read from that function), and programs the bus numbers of a bridge.
inductive Event
  | entered (bus : Nat)
  | acted (bdf : Nat) (own : Bool)
  | programmed (subBus secBus bus : Nat)
deriving DecidableEq, Repr

section

variable {S : Type} (hw : Mmio S) (table : PcieInfoTable)

-- `functionLoop` with the events.
def functionLoopTrace (enumerate : S → Nat → Nat → Option (S × Nat × List Event)) (bus : Nat) :
    List (Nat × Nat) → S → Locals → Option (S × Nat × List Event)
  | [], s, v => some (s, v.subBus, [])
  | (dev, func) :: rest, s, v =>
    let bdf := pcieCreateBdf 0 bus dev func
    let own := valPcieReadCfg hw table s bdf 0
    let vendorId := own.getD v.vendorId
    if vendorId = 0x0 ∨ vendorId = 0xFFFFFFFF then
      functionLoopTrace enumerate bus rest s { v with vendorId }
    else
      let headerValue := (valPcieReadCfg hw table s bdf headerOffset).getD v.headerValue
      if pcieHeaderType headerValue = type1Header then
        let s := valPcieWriteCfg hw table s bdf busNumRegOffset (busNumRegCfg 0xFF v.secBus bus)
        match enumerate s v.secBus (succ32 v.secBus) with
        | none => none
        | some (s, subBus, inner) =>
          let s := valPcieWriteCfg hw table s bdf busNumRegOffset (busNumRegCfg subBus v.secBus bus)
          (functionLoopTrace enumerate bus rest s
            { vendorId, headerValue, secBus := succ32 subBus, subBus }).map fun (s, n, events) =>
              (s, n, .acted bdf own.isSome :: .programmed 0xFF v.secBus bus ::
                (inner ++ .programmed subBus v.secBus bus :: events))
      else if pcieHeaderType headerValue = type0Header then
        (functionLoopTrace enumerate bus rest s
          { vendorId, headerValue, secBus := v.secBus, subBus := pred32 v.secBus }).map fun (s, n, events) =>
            (s, n, .acted bdf own.isSome :: events)
      else
        (functionLoopTrace enumerate bus rest s { v with vendorId, headerValue }).map fun (s, n, events) =>
          (s, n, .acted bdf own.isSome :: events)

-- `unset` is what the vendor id and the header value hold when a call is entered. Every call has locals
-- of its own.
def pcieEnumerateTrace (unset : S → Nat → BitVec 32 × BitVec 32) :
    Nat → S → Nat → Nat → Option (S × Nat × List Event)
  | 0, _, _, _ => none
  | fuel + 1, s, bus, secBus =>
    if bus = pcieMaxBus - 1 then some (s, bus, [.entered bus])
    else
      (functionLoopTrace hw table (pcieEnumerateTrace unset fuel) bus functionsOfBus s
        { vendorId := (unset s bus).1, headerValue := (unset s bus).2, secBus, subBus := bus }).map
          fun (s, n, events) => (s, n, .entered bus :: events)

def valBsaPcieEnumerateTrace (unset : S → Nat → BitVec 32 × BitVec 32) (fuel : Nat) (s : S) :
    Option (S × Nat × List Event) :=
  pcieEnumerateTrace hw table unset fuel s priBus secBus

end

end Pcie
