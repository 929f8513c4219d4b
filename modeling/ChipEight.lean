import ChipEight.CommandLine.Player
import ChipEight.CommandLine.Tools
import ChipEight.Debugger.Session
import ChipEight.Keyboard
import ChipEight.Machine.Canvas
import ChipEight.Machine.Dump
import ChipEight.Machine.Step
import ChipEight.Main
import ChipEight.Run.Loop
import ChipEight.Run.Rehearsal
import ChipEight.Source.Assembly
import ChipEight.Source.Listing
import ChipEight.Proofs.Instruction.Apart
import ChipEight.Proofs.Instruction.Decoding
import ChipEight.Proofs.Text.Cuts
import ChipEight.Proofs.Instruction.Reading
import ChipEight.Proofs.Source.ListingLines
import ChipEight.Proofs.Source.ListingRoundtrip
import ChipEight.Proofs.Source.Emission
import ChipEight.Proofs.Source.LabelOperands
import ChipEight.Proofs.Bare.Screen
import ChipEight.Proofs.Machine.DumpRoundtrip
import ChipEight.Proofs.Machine.Requests
import ChipEight.Proofs.Bare.Execution
import ChipEight.Proofs.Bare.Agreement
import ChipEight.Proofs.Bare.Rules
import ChipEight.Proofs.Bare.Dumps
import ChipEight.Proofs.Bare.Runs
import ChipEight.Proofs.Machine.Scrolling
import ChipEight.Proofs.Machine.CallStack
import ChipEight.Proofs.Debugger.Refusals
import ChipEight.Proofs.Machine.AddressBits
import ChipEight.Proofs.Machine.Unread
import ChipEight.Proofs.Machine.Dialects
import ChipEight.Proofs.Run.Beeper
import ChipEight.Proofs.Machine.DumpLayout
import ChipEight.Proofs.Machine.Picture
import ChipEight.Proofs.Run.Happenings
import ChipEight.Proofs.Run.Display
import ChipEight.Proofs.Run.KeyWait
import ChipEight.Proofs.Run.Stages
import ChipEight.Proofs.Run.Halting
import ChipEight.Proofs.Run.Observers
import ChipEight.Proofs.Run.Stepping
import ChipEight.Proofs.Run.BeeperCalls
import ChipEight.Proofs.Run.KeyStream
import ChipEight.Proofs.Machine.Loading
import ChipEight.Proofs.Machine.Parking
import ChipEight.Proofs.Source.Placement
import ChipEight.Proofs.Machine.Footprint
import ChipEight.Proofs.Machine.Faults
import ChipEight.Proofs.Machine.Drawing
import ChipEight.Proofs.Run.Timers
import ChipEight.Proofs.Instruction.Encoding
import ChipEight.Proofs.Machine.Arithmetic
import ChipEight.Proofs.Machine.Transfers
import ChipEight.Proofs.Machine.DrawOrder
import ChipEight.Proofs.Source.MoreLabels
import ChipEight.Proofs.Source.AddressMarks
import ChipEight.Proofs.Run.Breakpoints
import ChipEight.Proofs.Debugger.Changes
import ChipEight.Proofs.Debugger.Sessions
import ChipEight.Proofs.Machine.DumpFields
import ChipEight.Proofs.Machine.CanonicalDumps
import ChipEight.Proofs.Bare.Blocks
import ChipEight.Proofs.Debugger.Colours
import ChipEight.Proofs.Machine.ChainedTransfers
import ChipEight.Proofs.Text.NumeralGrammar
import ChipEight.Proofs.Debugger.RandomDraws
import ChipEight.Proofs.Source.ListingLabels
import ChipEight.Proofs.Instruction.AnyCase
import ChipEight.Proofs.Source.Edits
import ChipEight.Proofs.SwitchLetters
import ChipEight.Proofs.Machine.LitPixels
