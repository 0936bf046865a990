import PagedMemory.Routine
import PagedMemory.Checked
import PagedMemory.Word.Width
import PagedMemory.Word.ByteOrder
import PagedMemory.Word.Count
import PagedMemory.Bytes.Basic
import PagedMemory.Bytes.Summary
import PagedMemory.Error
import PagedMemory.Text.Shape
import PagedMemory.Answer
import PagedMemory.Access
import PagedMemory.Storage
import PagedMemory.Capacity
import PagedMemory.Backing.Basic
import PagedMemory.Backing.Session
import PagedMemory.Region.Basic
import PagedMemory.Region.Action
import PagedMemory.Region.Session
import PagedMemory.Gate.Basic
import PagedMemory.Gate.Session
import PagedMemory.Instance.Basic
import PagedMemory.Instance.Session
import PagedMemory.BinaryFloat.Datum
import PagedMemory.Guest.Resizer
import PagedMemory.Guest.SortSum
import PagedMemory.Guest.PlainSortSum
import PagedMemory.Guest.BitStats
import PagedMemory.Guest.Segments
import PagedMemory.Proofs.CapacityTheorems
import PagedMemory.Proofs.RoutineTheorems
import PagedMemory.Proofs.GrowthTheorems
import PagedMemory.Proofs.GrowthInPieces
import PagedMemory.Proofs.WordTheorems
import PagedMemory.Proofs.AccessTheorems
import PagedMemory.Proofs.RegionActions
import PagedMemory.Proofs.RegionOutcomes
import PagedMemory.Proofs.RegionInvariant
import PagedMemory.Proofs.SideBySide
import PagedMemory.Proofs.FlatMemory
import PagedMemory.Proofs.CapacityOfOrigin
import PagedMemory.Proofs.Headroom
import PagedMemory.Proofs.CopySimulation
import PagedMemory.Proofs.HiddenCapacity
import PagedMemory.Proofs.GrowthAnswers
import PagedMemory.Proofs.WordAccess
import PagedMemory.Proofs.OneTimeInstallation
import PagedMemory.Proofs.SortBuffer
import PagedMemory.Proofs.GuestMemory
import PagedMemory.Proofs.PlainSort
import PagedMemory.Proofs.SortSimulation
import PagedMemory.Proofs.SortOrder
import PagedMemory.Proofs.ByteOrder
import PagedMemory.Proofs.BitLanes
import PagedMemory.Proofs.WordRows
import PagedMemory.Proofs.RowTheorems
import PagedMemory.Proofs.SegmentInstallation
import PagedMemory.Proofs.CapacityPolicy
import PagedMemory.Proofs.OverlappingAccesses
import PagedMemory.Proofs.SegmentCopy
import PagedMemory.Proofs.BitReversal
import PagedMemory.Proofs.ZeroCounts
import PagedMemory.Proofs.LaneSums
import PagedMemory.Proofs.BigEndian
