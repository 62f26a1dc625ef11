import RingWallet.Main
import RingWallet.Storage.WalletFiles
import RingWallet.Wallet.Progress
import RingWallet.Proofs.Wallet.Run
import RingWallet.Proofs.Wallet.Consistent
import RingWallet.Proofs.Wallet.Scan
import RingWallet.Proofs.Wallet.Changes
import RingWallet.Proofs.Support.Except
import RingWallet.Proofs.Wallet.Moves
import RingWallet.Proofs.Wallet.Calls
import RingWallet.Proofs.Support.SmallSuite
import RingWallet.Proofs.Wallet.Marks
import RingWallet.Proofs.Wallet.Chain
import RingWallet.Proofs.Support.Sums
import RingWallet.Proofs.Wallet.Reading
import RingWallet.Proofs.Wallet.Bounds
import RingWallet.Proofs.Wallet.Detach
import RingWallet.Proofs.Support.Script
import RingWallet.Proofs.Hex
import RingWallet.Proofs.Wallet.Failure
import RingWallet.Proofs.Spend.Split
import RingWallet.Proofs.Spend.Select
import RingWallet.Proofs.Spend.Construct
import RingWallet.Proofs.Spend.Build
import RingWallet.Proofs.Spend.Conserve
import RingWallet.Proofs.Spend.Ring
import RingWallet.Proofs.Wallet.Keeps
import RingWallet.Proofs.Wallet.Batch
import RingWallet.Proofs.Support.ChainServer
import RingWallet.Proofs.Wallet.Payments
import RingWallet.Proofs.Wallet.Deeds
import RingWallet.Proofs.Wallet.Pending
import RingWallet.Proofs.Wallet.Replay
import RingWallet.Proofs.Wallet.Converge
import RingWallet.Proofs.Wallet.LocalChain
import RingWallet.Proofs.Wallet.Commit
import RingWallet.Proofs.Spend.Draws
import RingWallet.Proofs.Spend.Taken
import RingWallet.Proofs.Rpc.Errors
import RingWallet.Proofs.Spend.Signatures
import RingWallet.Proofs.Spend.Receive
import RingWallet.Proofs.Spend.Spendable
import RingWallet.Proofs.Spend.Attempts
import RingWallet.Proofs.Codec
import RingWallet.Proofs.Ledger.Blob
import RingWallet.Proofs.Wallet.SavedState
import RingWallet.Proofs.Wallet.Restore
import RingWallet.Proofs.Wallet.Pinned
import RingWallet.Proofs.Wallet.Outcome
import RingWallet.Proofs.Wallet.Remembers
import RingWallet.Proofs.Wallet.Rescan
import RingWallet.Proofs.Wallet.Harvest
import RingWallet.Proofs.Support.FlakyServer
import RingWallet.Proofs.Wallet.Unsteady
import RingWallet.Proofs.Storage.Files
import RingWallet.Proofs.Storage.Reload
import RingWallet.Proofs.Wallet.Twins
import RingWallet.Proofs.Rpc.Identity
import RingWallet.Proofs.Rpc.Stateless
import RingWallet.Proofs.Wallet.Journal
import RingWallet.Proofs.Wallet.Tip
import RingWallet.Proofs.Wallet.Retries
import RingWallet.Proofs.Spend.Change
import RingWallet.Proofs.Wallet.Fingerprint
import RingWallet.Proofs.Wallet.Cut
import RingWallet.Proofs.Spend.Selection
import RingWallet.Proofs.Wallet.Paired
import RingWallet.Proofs.Wallet.Watching
import RingWallet.Proofs.Wallet.Confirm
import RingWallet.Proofs.Ledger.Extra
import RingWallet.Proofs.Spend.Digits
import RingWallet.Proofs.Spend.Dust
import RingWallet.Proofs.Spend.Refusal
import RingWallet.Proofs.Spend.Lossless
import RingWallet.Proofs.Spend.RingOffsets
import RingWallet.Proofs.Spend.Parts
import RingWallet.Proofs.Spend.Words
import RingWallet.Proofs.Spend.Overflow
import RingWallet.Proofs.HexDigits
import RingWallet.Proofs.Spend.PaymentId
import RingWallet.Proofs.Wallet.Deposit
import RingWallet.Proofs.Wallet.Until
import RingWallet.Proofs.Bech32.Bits
import RingWallet.Proofs.Bech32.Checksum
import RingWallet.Proofs.Bech32.Spelling
import RingWallet.Proofs.Storage.KeysFile
import RingWallet.Proofs.Varint
import RingWallet.Proofs.Address
import RingWallet.Proofs.Money
