import FirstRow.Store.Image

/-!
# Maps of pages

A file can keep maps beside its content: pages that say of every other page what it is for and which page refers to
it. `PointerMap.next` uses them to go along a chain of overflow pages: such a chain most often goes on with the very
next page, and the map says whether it does, so that the page itself need not be read.
-/
namespace FirstRow.Store.PointerMap

/-- How many pages lie from one map to the next. An entry has five octets. -/
def span (img : Image) : Nat :=
  img.usable / 5 + 1

/-- The map with the entry of a page. A map makes room for the page for locks. -/
def mapOf (img : Image) (n : Nat) : Nat :=
  let m := (n - 2) / span img * span img + 2
  if m = img.lockPage then m + 1 else m

/-- Whether a page can hold content: it is neither a map nor the page for locks. -/
def holdsContent (img : Image) (n : Nat) : Bool :=
  mapOf img n ≠ n && n ≠ img.lockPage

/-- The first page behind a page that can hold content. A map and the page for locks can lie between them. -/
def successor (img : Image) (n : Nat) : Nat :=
  if holdsContent img (n + 1) then n + 1
  else if holdsContent img (n + 2) then n + 2
  else n + 3

/-- The number of the uses that an entry can state. -/
def uses : Nat := 5

/-- The use of a page that continues a chain. -/
def continuation : UInt8 := 4

/-- Whether the map says that a page continues a chain behind another one. -/
def continues (img : Image) (n previous : Nat) : Except Error Bool := do
  let map ← img.page (mapOf img n)
  let at_ := 5 * (n - map.number - 1)
  let use := octetAt map.octets at_
  if use = 0 || uses < use.toNat then .error .malformed
  else .ok (use = continuation && numberAt map.octets (at_ + 1) 4 = previous)

/-- The page behind a page of a chain: the one that the map gives, if there is a map and it gives one, and else the
one that the page itself refers to. -/
def next (img : Image) (n : Nat) : Except Error Nat := do
  let guess := successor img n
  let given ← if img.isMapped && guess ≤ img.pageCount then continues img guess n else .ok false
  if given then .ok guess
  else
    let page ← img.page n
    .ok (numberAt page.octets 0 4)

end FirstRow.Store.PointerMap
