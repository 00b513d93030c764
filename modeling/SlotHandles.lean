import SlotHandles.Capacity
import SlotHandles.Cell.Format
import SlotHandles.Report
import SlotHandles.Session.Program
import SlotHandles.Proofs.Residue
import SlotHandles.Proofs.Dispatch
import SlotHandles.Proofs.Situations
import SlotHandles.Proofs.Lifetimes
import SlotHandles.Proofs.Contracts
import SlotHandles.Proofs.Graph
import SlotHandles.Proofs.Families
import SlotHandles.Proofs.Unraveling
import SlotHandles.Proofs.Detaching
import SlotHandles.Proofs.Relinking
import SlotHandles.Proofs.Factories
import SlotHandles.Proofs.Reentry
import SlotHandles.Proofs.Extraction
import SlotHandles.Proofs.Items
import SlotHandles.Proofs.Counting
import SlotHandles.Proofs.Fitting
import SlotHandles.Proofs.Truncation
import SlotHandles.Proofs.Redirection
import SlotHandles.Proofs.Increments

/-!
# Slots and owning handles

Values live in slots, and handles own them: one exclusive handle, or any number of shared ones.  The library models
slots, handles, views and the programs over them, and proves what holds after every run of such programs.

The model is that of a build with every check (debug checks on) and with exceptions.  The two levels of checks are told
apart in `SlotHandles.Violation`.  A build without the debug checks reports nothing where only these would, and one
without exceptions has no factories that throw and no constructors that do.
-/
