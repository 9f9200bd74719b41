import Mathlib.Data.List.Basic

/-!
# Constants and pages

The constants of `uck.h` that the modules share, and pages as byte strings of the page size.
-/

namespace UckSmp

/-- `PAGE_SIZE`. -/
def pageSize : Nat := 4096

/-- `UCK_BATCH_MAX_PAGES`. -/
def uckBatchMaxPages : Nat := 32

/-- `UCK_PREFETCH_WINDOW`. -/
def uckPrefetchWindow : Nat := 8

/-- The contents of a page. -/
structure Page where
  bytes : List UInt8
  length_bytes : bytes.length = pageSize
  deriving DecidableEq

theorem Page.ext {p q : Page} (h : p.bytes = q.bytes) : p = q := by
  cases p; cases q; cases h; rfl

/-- The page with byte `b` everywhere. -/
def Page.filled (b : UInt8) : Page := ⟨List.replicate pageSize b, List.length_replicate⟩

/-- The page of zeros, as `alloc_page(__GFP_ZERO)` and `kzalloc` give it. -/
instance : Zero Page := ⟨Page.filled 0⟩

theorem Page.filled_injective : Function.Injective Page.filled := by
  intro a b h
  exact List.replicate_right_injective (by decide) (congrArg Page.bytes h)

end UckSmp
