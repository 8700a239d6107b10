import FirstRow.Store.PointerMap

/-!
# Chains of overflow pages

What a page has no room for goes on in a chain of overflow pages: each begins with the number of the next one and holds
data up to its reserved end. The pages that were found while one cell is read are remembered, so that no part of its
chain is gone along twice; a `Chain` holds their numbers.
-/
namespace FirstRow.Store

/-- The pages of a chain that are known, in order. -/
abbrev Chain := Array Nat

/-- Reads one part of a cell after another, as long as nothing fails. -/
abbrev ChainReader := StateT Chain (Except Error)

namespace Chain

/-- Remember the page that stands at a place of the chain. -/
def note (known : Chain) (i page : Nat) : Chain :=
  if h : i < known.size then known.set i page else known.push page

/-- How many octets of data an overflow page holds. -/
def perPage (img : Image) : Nat :=
  img.usable - 4

/-- Take `amount` octets that begin `offset` behind the start of `page`, the `i`th page of the chain. At most `n` pages
are looked at. Those in front of the first octet are passed over, with the pages that are known or by the map; a page
whose data is wanted says itself which one comes next. -/
def follow (img : Image) : Nat → Nat → Nat → Nat → Nat → ChainReader (List UInt8)
  | 0, _, _, _, _ => pure []
  | n + 1, i, page, offset, amount => do
    if page = 0 || img.pageCount < page then throw .malformed
    modify (·.note i page)
    if perPage img ≤ offset then
      let next ← match (← get)[i + 1]? with
        | some p => pure p
        | none => PointerMap.next img page
      follow img n (i + 1) next (offset - perPage img) amount
    else
      let p ← img.page page
      let here := min amount (perPage img - offset)
      let head := octetsAt p.octets (4 + offset) here
      if here = amount then pure head
      else return head ++ (← follow img n (i + 1) (numberAt p.octets 0 4) 0 (amount - here))

/-- Take `amount` octets from the chain that begins with a page, `offset` behind its start. It is gone along from
there, unless the page with the first octet is known. -/
def read (img : Image) (first offset amount : Nat) : ChainReader (List UInt8) := do
  let skipped := offset / perPage img
  let pages := (offset + amount + perPage img - 1) / perPage img
  match (← get)[skipped]? with
  | some page => follow img (pages - skipped) skipped page (offset - skipped * perPage img) amount
  | none => follow img pages 0 first offset amount

end Chain
end FirstRow.Store
