import ChipEight.Dump
import ChipEight.Instruction.Encoding
import ChipEight.Machine.Operation
import ChipEight.Session
import ChipEight.Proofs.Components
import ChipEight.Proofs.Cycle
import ChipEight.Proofs.Checked
import ChipEight.Proofs.FaultTable
import ChipEight.Proofs.Bounds
import ChipEight.Proofs.Advance
import ChipEight.Proofs.CarriedTime
import ChipEight.Proofs.Pacing
import ChipEight.Proofs.Screen
import ChipEight.Proofs.DumpLines
import ChipEight.Proofs.DumpMemory
import ChipEight.Proofs.DumpText
import ChipEight.Proofs.CycleTrace
import ChipEight.Proofs.FreshStart
import ChipEight.Proofs.Returns
import ChipEight.Proofs.Standstill
import ChipEight.Proofs.Rate
import ChipEight.Proofs.TimerTicks
import ChipEight.Proofs.PictureParity
import ChipEight.Proofs.SingleStep
import ChipEight.Proofs.Difference
import ChipEight.Proofs.Lockstep
import ChipEight.Proofs.Dialects
import ChipEight.Proofs.Inputs
import ChipEight.Proofs.Palette
import ChipEight.Proofs.RandomBytes
import ChipEight.Proofs.CallAccounts
import ChipEight.Proofs.TickCredit
import ChipEight.Proofs.SpritePixels
import ChipEight.Proofs.CycleBudget
import ChipEight.Proofs.VisibleRows
import ChipEight.Proofs.Arithmetic
import ChipEight.Proofs.ControlFlow
import ChipEight.Proofs.Frames
import ChipEight.Proofs.MemoryListing
import ChipEight.Proofs.ProgramFetch
import ChipEight.Proofs.SavedRegisters
import ChipEight.Proofs.IndexSums
import ChipEight.Proofs.AddressSpace
import ChipEight.Proofs.WordPieces
