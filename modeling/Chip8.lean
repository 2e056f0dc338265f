import Chip8.Main
import Chip8.Window
import Chip8.Host.Replay
import Chip8.Proofs.Decode
import Chip8.Proofs.Memory
import Chip8.Proofs.ByteAccess
import Chip8.Proofs.Outcome
import Chip8.Proofs.Screen
import Chip8.Proofs.Execute
import Chip8.Proofs.Calls
import Chip8.Proofs.Checked
import Chip8.Proofs.History
import Chip8.Proofs.ScreenHistory
import Chip8.Proofs.OpcodeTable
import Chip8.Proofs.PostMortem
import Chip8.Proofs.Faults
import Chip8.Proofs.Halting
import Chip8.Proofs.Loading
import Chip8.Proofs.Subroutine
import Chip8.Proofs.ClippedXor
import Chip8.Proofs.MemoryHistory
import Chip8.Proofs.RegisterTransfer
import Chip8.Proofs.Influence
import Chip8.Proofs.BatchSize
import Chip8.Proofs.FrontEnds
import Chip8.Proofs.Headless
import Chip8.Proofs.Ticks
import Chip8.Proofs.Timers
import Chip8.Proofs.KeyWait
import Chip8.Proofs.Allowance
import Chip8.Proofs.Log
import Chip8.Proofs.RandomStream
import Chip8.Proofs.RunComposition
