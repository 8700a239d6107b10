import FirstRow.Session
import FirstRow.Proofs.Agreement
import FirstRow.Proofs.Routing
import FirstRow.Proofs.Head
import FirstRow.Proofs.Locality
import FirstRow.Proofs.Dotenv.Effect
import FirstRow.Proofs.Dotenv.Comment
import FirstRow.Proofs.Dotenv.Course
import FirstRow.Proofs.Dotenv.LastLine
import FirstRow.Proofs.ServedLine
import FirstRow.Proofs.Extent
import FirstRow.Proofs.RealText
import FirstRow.Proofs.Encodings
import FirstRow.Proofs.StorageOrder
import FirstRow.Proofs.Store.Values
import FirstRow.Proofs.Sql.Applied
import FirstRow.Proofs.Respelling
