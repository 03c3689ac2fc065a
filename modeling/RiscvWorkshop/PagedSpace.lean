import Mathlib

namespace RiscvWorkshop

/-!
# Address spaces made of pages

An address lies in a page of some size or in none, and all addresses of one
page lie in it.  Nothing is said about how pages are found, which sizes they
have, or what is stored in them.
-/

/-- A page: where its bytes are, and how many. -/
structure Page where
  base : Nat
  size : Nat
deriving Repr, DecidableEq

/-- A map of addresses to pages, the same for all addresses of a page. -/
structure PagedSpace where
  page : Nat → Option Page
  positive : ∀ {address page'}, page address = some page' → 0 < page'.size
  uniform :
    ∀ {address other page'},
      page address = some page' →
        other / page'.size = address / page'.size →
        page other = some page'

namespace PagedSpace

variable {space : PagedSpace}
variable {address bytes : Nat}
variable {page : Page}

/-- Where the byte of an address is. -/
def location (space : PagedSpace) (address : Nat) : Option Nat :=
  (space.page address).map fun page => page.base + address % page.size

/-- The bytes from an address to the end of its page. -/
def room (space : PagedSpace) (address : Nat) : Nat :=
  match space.page address with
  | none => 0
  | some page => page.size - address % page.size

theorem room_of_page
    (inPage : space.page address = some page) :
    space.room address = page.size - address % page.size := by
  rw [room, inPage]

theorem location_of_page
    (inPage : space.page address = some page) :
    space.location address = some (page.base + address % page.size) := by
  rw [location, inPage]
  rfl

theorem room_pos
    (inPage : space.page address = some page) :
    0 < space.room address := by
  have below := Nat.mod_lt address (space.positive inPage)
  rw [room_of_page inPage]
  omega

/-- The offset of a later address of the same page. -/
theorem mod_add
    (inPage : space.page address = some page)
    (inRoom : bytes < space.room address) :
    (address + bytes) % page.size = address % page.size + bytes := by
  rw [room_of_page inPage] at inRoom
  have positive := space.positive inPage
  rw [Nat.add_mod, Nat.mod_eq_of_lt (show bytes < page.size by omega),
    Nat.mod_eq_of_lt (by omega)]

/-- A later address of the same page. -/
theorem page_add
    (inPage : space.page address = some page)
    (inRoom : bytes < space.room address) :
    space.page (address + bytes) = some page := by
  refine space.uniform inPage ?_
  have offset := mod_add inPage inRoom
  have positive := space.positive inPage
  have later := Nat.div_add_mod (address + bytes) page.size
  have earlier := Nat.div_add_mod address page.size
  refine Nat.eq_of_mul_eq_mul_left positive ?_
  omega

theorem location_add
    (inPage : space.page address = some page)
    (inRoom : bytes < space.room address) :
    space.location (address + bytes) =
      some (page.base + address % page.size + bytes) := by
  rw [location_of_page (page_add inPage inRoom), mod_add inPage inRoom,
    Nat.add_assoc]

/-- What is left of the page at a later address of it. -/
theorem room_add
    (inPage : space.page address = some page)
    (inRoom : bytes < space.room address) :
    space.room (address + bytes) = space.room address - bytes := by
  rw [room_of_page (page_add inPage inRoom), mod_add inPage inRoom,
    room_of_page inPage]
  omega

/-- An earlier address of the same page. -/
theorem page_sub
    (inPage : space.page (address + bytes) = some page)
    (inOffset : bytes ≤ (address + bytes) % page.size) :
    space.page address = some page ∧ bytes < space.room address := by
  have positive := space.positive inPage
  have later := Nat.div_add_mod (address + bytes) page.size
  have below := Nat.mod_lt (address + bytes) positive
  have quotient : address / page.size = (address + bytes) / page.size := by
    refine Nat.div_eq_of_lt_le ?_ ?_
    · rw [Nat.mul_comm]
      omega
    · rw [Nat.succ_mul, Nat.mul_comm]
      omega
  have offset :
      address % page.size = (address + bytes) % page.size - bytes := by
    have earlier := Nat.div_add_mod address page.size
    rw [quotient] at earlier
    omega
  have earlier := space.uniform inPage quotient
  refine ⟨earlier, ?_⟩
  rw [room_of_page earlier, offset]
  omega

end PagedSpace

end RiscvWorkshop
