import Chip8.CommandLine.Directory
import Chip8.Instruction.Encode
import Chip8.Main
import Chip8.Proofs.Awaiting
import Chip8.Proofs.Bounds
import Chip8.Proofs.Step
import Chip8.Proofs.FrontEnd.Changes
import Chip8.Proofs.FrontEnd.Limit
import Chip8.Proofs.Listing
import Chip8.Proofs.Session.Observers
import Chip8.Proofs.Session.Refinement
import Chip8.Proofs.Subroutine
import Chip8.Proofs.Permanence
import Chip8.Memory.Request
import Chip8.Proofs.Loading
import Chip8.Program
import Chip8.Proofs.Assembly
import Chip8.Proofs.Session.Pacing
import Chip8.Proofs.Mnemonic
import Chip8.Proofs.RandomStream
import Chip8.Proofs.Drawing
import Chip8.Proofs.DoubleDraw
import Chip8.Instruction.Pattern
import Chip8.Proofs.Access
import Chip8.Proofs.Arithmetic
import Chip8.Proofs.Effects
import Chip8.Proofs.ProgramCounter
import Chip8.Proofs.Interleaving
import Chip8.Proofs.BlockTransfer
import Chip8.Proofs.Views
import Chip8.Proofs.FrontEnd.Failure
import Chip8.Settings.Writing
import Chip8.Proofs.GridSize
import Chip8.Proofs.Launch
import Chip8.Proofs.Holding
import Chip8.Proofs.Iteration
import Chip8.Proofs.Origin
import Chip8.Proofs.Stores
